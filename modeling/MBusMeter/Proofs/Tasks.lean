import MBusMeter.Firmware.Tasks
import MBusMeter.Proofs.Accepting

/-!
# Updates from several tasks

The lock makes an update a whole: whatever tasks make calls and however their
steps fall, the attributes are what the updates make of them one after the
other, each task's in its own order, and no update but one of the active power
is ever left out. So the two attributes of the active power hold the same
whenever nobody has the lock.

The remembered power is not part of that. As long as one task alone makes the
calls for the power it agrees with the attributes; when two calls overlap, it
can be one of them that is remembered last and the other that is shown.
-/

namespace MBusMeter.Proofs

open Lib Firmware Firmware.Pdu Spec

/-! ## One call -/

variable {zb : EspZigbee}

/-- Under the lock a function does what it does when nobody else is there. -/
theorem finish_underLock {u : MeterUpdate} {prev : Int16}
    (h : ∀ powerWatts, u = .activePower powerWatts → prev ≠ powerWatts)
    (state : zb.State) :
    (zb.underLock u).finish state =
      (zb.zigbeeMeterUpdate ⟨prev, state⟩ u).state := by
  cases u with
  | activePower powerWatts =>
      rw [EspZigbee.underLock, EspZigbee.activePowerSteps,
        EspZigbee.zigbeeMeterUpdate, EspZigbee.zigbeeMeterUpdateActivePower,
        if_neg (h powerWatts rfl)]
      simp only [Held.finish]
      split <;> rfl
  | _ => rfl

/-- There is always a value to be remembered that lets the call through. -/
theorem exists_other (u : MeterUpdate) : ∃ prev : Int16,
    ∀ powerWatts, u = .activePower powerWatts → prev ≠ powerWatts := by
  cases u with
  | activePower powerWatts =>
      refine ⟨if powerWatts = 0 then 1 else 0, fun p hp => ?_⟩
      cases hp
      split
      · next hzero => rw [hzero]; decide
      · next hzero => exact Ne.symm hzero
  | _ => exact ⟨0, nofun⟩

/-- Where a task is in its calls. -/
inductive At : List MeterUpdate → Task Int16 MeterUpdate → Prop where
  | next (calls : List MeterUpdate) : At calls (updateTask calls)
  | set (powerWatts : Int16) (calls : List MeterUpdate) :
      At (.activePower powerWatts :: calls)
        (rememberPower powerWatts (updateTask calls))
  | wait (powerWatts : Int16) (calls : List MeterUpdate) :
      At (.activePower powerWatts :: calls)
        (.locked (.activePower powerWatts) (updateTask calls))

/-- A step without the lock is one of a call for the power: the value is
compared, and the call is over or goes on to set it; or it is set. -/
theorem At.free {calls : List MeterUpdate} {f : Int16 → Int16}
    {next : Int16 → Task Int16 MeterUpdate} (h : At calls (.free f next)) :
    ∃ powerWatts rest, calls = .activePower powerWatts :: rest ∧
      ((f = id ∧ ∀ prev,
        (prev = powerWatts ∧ next prev = updateTask rest) ∨
        (prev ≠ powerWatts ∧
          next prev = rememberPower powerWatts (updateTask rest))) ∨
      (f = (fun _ => powerWatts) ∧ ∀ prev, next prev =
        .locked (.activePower powerWatts) (updateTask rest))) := by
  generalize htask : Task.free f next = task at h
  cases h with
  | next =>
      rcases calls with _ | ⟨u, calls⟩
      · cases htask
      cases u with
      | activePower powerWatts =>
          rw [updateTask] at htask
          cases htask
          refine ⟨powerWatts, calls, rfl, Or.inl ⟨rfl, fun prev => ?_⟩⟩
          by_cases hprev : prev = powerWatts
          · exact Or.inl ⟨hprev, if_pos hprev⟩
          · exact Or.inr ⟨hprev, if_neg hprev⟩
      | _ => cases htask
  | set powerWatts rest =>
      cases htask
      exact ⟨powerWatts, rest, rfl, Or.inr ⟨rfl, fun _ => rfl⟩⟩
  | wait powerWatts rest => cases htask

/-- The lock is taken for the call the task is in. -/
theorem At.locked {calls : List MeterUpdate} {u : MeterUpdate}
    {next : Task Int16 MeterUpdate} (h : At calls (.locked u next)) :
    ∃ rest, calls = u :: rest ∧ next = updateTask rest := by
  generalize htask : Task.locked u next = task at h
  cases h with
  | next =>
      rcases calls with _ | ⟨u', calls⟩
      · cases htask
      cases u' with
      | activePower powerWatts => cases htask
      | _ => cases htask; exact ⟨calls, rfl, rfl⟩
  | set powerWatts rest => cases htask
  | wait powerWatts rest => cases htask; exact ⟨rest, rfl, rfl⟩

theorem At.done {calls : List MeterUpdate} (h : At calls .done) :
    calls = [] := by
  generalize htask : Task.done = task at h
  cases h with
  | next =>
      rcases calls with _ | ⟨u, calls⟩
      · rfl
      cases u <;> cases htask
  | set powerWatts rest => cases htask
  | wait powerWatts rest => cases htask

/-! ## A task on its way -/

/-- The calls that are never left out. -/
def notPower (calls : List MeterUpdate) : List MeterUpdate :=
  calls.filter fun u => channelOf u ≠ .activePower

theorem notPower_append (us vs : List MeterUpdate) :
    notPower (us ++ vs) = notPower us ++ notPower vs := List.filter_append ..

/-- A task has made some of its calls, and got the lock for all of them but
perhaps some for the power. -/
theorem path_updateTask {calls whats : List MeterUpdate}
    {task : Task Int16 MeterUpdate}
    (h : (updateTask calls).Path whats task) :
    ∃ made rest, calls = made ++ rest ∧ At rest task ∧
      whats.Sublist made ∧ notPower whats = notPower made := by
  induction h with
  | nil => exact ⟨[], calls, rfl, .next calls, .slnil, rfl⟩
  | free f a h ih =>
      obtain ⟨made, rest, hcalls, hat, hsub, hnot⟩ := ih
      obtain ⟨powerWatts, rest, rfl, ⟨_, hnext⟩ | ⟨_, hnext⟩⟩ := hat.free
      · rcases hnext a with ⟨_, hnext⟩ | ⟨_, hnext⟩
        · refine ⟨made ++ [.activePower powerWatts], rest, ?_, ?_, ?_, ?_⟩
          · rw [hcalls, List.append_cons]
          · rw [hnext]
            exact .next rest
          · exact hsub.trans (List.sublist_append_left _ _)
          · rw [hnot, notPower_append]
            exact (List.append_nil _).symm
        · refine ⟨made, _, hcalls, ?_, hsub, hnot⟩
          rw [hnext]
          exact .set powerWatts rest
      · refine ⟨made, _, hcalls, ?_, hsub, hnot⟩
        rw [hnext]
        exact .wait powerWatts rest
  | @locked _ whats u h ih =>
      obtain ⟨made, rest, hcalls, hat, hsub, hnot⟩ := ih
      obtain ⟨rest, rfl, rfl⟩ := hat.locked
      refine ⟨made ++ [u], rest, ?_, .next rest, hsub.append_right [u], ?_⟩
      · rw [hcalls, List.append_cons]
      · rw [notPower_append, notPower_append, hnot]

/-! ## Attributes -/

section

variable {zb : EspZcl} {good : zb.State → Prop}

/-- What is written under the lock is there, and other places are as they
were. -/
theorem AcceptsFrom.finish_holds (h : AcceptsFrom zb good) {state : zb.State}
    (hgood : good state) {u : MeterUpdate} (hu : Fitting u) (prev : Int16) :
    @Holds zb.toEspZigbee ⟨prev, (zb.underLock u).finish state⟩ u ∧
      ∀ u', channelOf u' ∈ channels → channelOf u' ≠ channelOf u →
        @Holds zb.toEspZigbee ⟨prev, state⟩ u' →
          @Holds zb.toEspZigbee ⟨prev, (zb.underLock u).finish state⟩ u' := by
  obtain ⟨other, hother⟩ := exists_other u
  rw [finish_underLock hother]
  refine ⟨?_, fun u' hu' hne hholds =>
    @Holds.update zb.toEspZigbee ⟨other, state⟩ u' u hholds hu' hu.1 hne⟩
  by_cases hpower : channelOf u = .activePower
  · cases u with
    | activePower powerWatts =>
        exact holds_activePower.mpr (update_shows (hother powerWatts rfl)
          (h.takesPower hgood powerWatts))
    | _ => cases hpower
  · exact @AcceptsFrom.holds zb good h ⟨other, state⟩ hgood u hu hpower

theorem AcceptsFrom.finish (h : AcceptsFrom zb good) {state : zb.State}
    (hgood : good state) (u : MeterUpdate) :
    good ((zb.underLock u).finish state) := by
  obtain ⟨other, hother⟩ := exists_other u
  rw [finish_underLock hother]
  exact @AcceptsFrom.update zb good h ⟨other, state⟩ hgood u

theorem AcceptsFrom.serial {ι : Type} (h : AcceptsFrom zb good)
    {state : zb.State} (hgood : good state) (begun : List (ι × MeterUpdate)) :
    good (inOrder zb.underLock begun state) := by
  induction begun using List.reverseRecOn with
  | nil => exact hgood
  | append_singleton begun x ih =>
      rw [inOrder_snoc]
      exact h.finish ih x.2

/-- Updates one after the other leave each place with its last. -/
theorem AcceptsFrom.inOrder_holds {ι : Type} (h : AcceptsFrom zb good)
    {state : zb.State} (hgood : good state) (prev : Int16)
    (begun : List (ι × MeterUpdate)) (hbegun : ∀ x ∈ begun, Fitting x.2)
    {channel : Channel} {u : MeterUpdate}
    (hu : shown channel (begun.map Prod.snd) = some u) :
    @Holds zb.toEspZigbee ⟨prev, inOrder zb.underLock begun state⟩ u := by
  induction begun using List.reverseRecOn with
  | nil => simp [shown, lastOn] at hu
  | append_singleton begun x ih =>
      obtain ⟨i, u'⟩ := x
      have hu' : Fitting u' := hbegun (i, u') (by simp)
      have hfront := fun y hy => hbegun y (List.mem_append_left _ hy)
      obtain ⟨hnew, hkept⟩ :=
        h.finish_holds (h.serial hgood begun) hu' prev
      rw [inOrder_snoc]
      rw [List.map_append, List.map_singleton, shown, lastOn_snoc] at hu
      split at hu
      · cases hu
        exact hnew
      · next hne =>
          have hchannel := channel_of_lastOn hu
          have hmem : u ∈ begun.map Prod.snd :=
            List.mem_of_mem_filter (List.mem_of_getLast? hu)
          obtain ⟨y, hy, rfl⟩ := List.mem_map.mp hmem
          refine hkept y.2 (hfront y hy).1 ?_ (ih hfront hu)
          rw [hchannel]
          exact Ne.symm hne

end

/-! ## All tasks -/

variable {ι : Type} [DecidableEq ι] {calls : ι → List MeterUpdate}
  {meter : zb.Meter} {s : System ι Int16 zb.State MeterUpdate}

/-- What the tasks share. -/
def shared (s : System ι Int16 zb.State MeterUpdate) : zb.Meter :=
  ⟨s.outside, s.inside⟩

theorem mem_of_mem_begun {begun : List (ι × MeterUpdate)}
    (h : ∀ i, (begunBy begun i).Sublist (calls i)) {x : ι × MeterUpdate}
    (hx : x ∈ begun) : x.2 ∈ calls x.1 := by
  refine (h x.1).subset (List.mem_map.mpr ⟨x, ?_, rfl⟩)
  exact List.mem_filter.mpr ⟨hx, decide_eq_true rfl⟩

/-- Whatever tasks make calls and however their steps fall: when nobody has
the lock the stack is as updates leave it that are made one after the other.
They are each task's own calls in their order, and a task that is done has
left out none but calls for the power. On a stack that accepts its writes, and
with calls for places of the meter, each attribute holds the last of them for
it; and the tasks can always come to their end. -/
theorem updates_serialise (zb : EspZcl) (calls : ι → List MeterUpdate)
    (meter : zb.Meter) (s : System ι Int16 zb.State MeterUpdate)
    (h : Reaches zb.underLock (zb.updateSystem calls meter) s) :
    (s.holder = none →
      s.inside = inOrder zb.underLock s.begun meter.state) ∧
    (∀ i, (begunBy s.begun i).Sublist (calls i) ∧
      (s.tasks i = .done →
        notPower (begunBy s.begun i) = notPower (calls i))) ∧
    (∀ good, AcceptsFrom zb good → good meter.state → s.holder = none →
      (∀ i, ∀ u ∈ calls i, Fitting u) →
        ∀ channel u, shown channel (s.begun.map Prod.snd) = some u →
          @Holds zb.toEspZigbee (shared s) u) ∧
    ∀ is : List ι, ∃ t, Reaches zb.underLock s t ∧ t.holder = none ∧
      ∀ i ∈ is, t.tasks i = .done := by
  obtain ⟨hserial, hpath⟩ := h.serial rfl
  have hinside : s.holder = none →
      s.inside = inOrder zb.underLock s.begun meter.state := fun hfree =>
    (System.settled_of_none hfree).symm.trans hserial
  have hmade : ∀ i, (begunBy s.begun i).Sublist (calls i) := by
    intro i
    obtain ⟨made, rest, hcalls, _, hsub, _⟩ := path_updateTask (hpath i)
    rw [hcalls]
    exact hsub.trans (List.sublist_append_left _ _)
  refine ⟨hinside, fun i => ⟨hmade i, fun hdone => ?_⟩, ?_,
    completes_all s⟩
  · obtain ⟨made, rest, hcalls, hat, _, hnot⟩ := path_updateTask (hpath i)
    rw [hdone] at hat
    rw [hnot, hcalls, hat.done, List.append_nil]
  · intro good haccepts hgood hfree hcalls channel u hu
    rw [shared, hinside hfree]
    exact haccepts.inOrder_holds hgood s.outside s.begun
      (fun x hx => hcalls x.1 x.2 (mem_of_mem_begun hmade hx)) hu

/-- A current from the one task and a power from the other. -/
def currentAndPower : Caller → List MeterUpdate
  | .uartTask => [.rmsCurrent 0 7]
  | .timerTask => [.activePower 5]

theorem currentAndPower_fitting {c : Caller} {u : MeterUpdate}
    (h : u ∈ currentAndPower c) : Fitting u := by
  cases c with
  | uartTask => exact ⟨by rw [List.mem_singleton.mp h]; decide, by
      rw [List.mem_singleton.mp h]
      trivial⟩
  | timerTask => exact ⟨by rw [List.mem_singleton.mp h]; decide, by
      rw [List.mem_singleton.mp h]
      trivial⟩

theorem currentAndPower_reaches : Reaches scriptedZcl.underLock
    (scriptedZcl.updateSystem currentAndPower (scriptedMeter []))
    { scriptedZcl.updateSystem currentAndPower (scriptedMeter []) with
      inside := (scriptedZcl.underLock (.rmsCurrent 0 7)).finish
        (scriptedMeter []).state
      begun := [(.uartTask, .rmsCurrent 0 7)]
      tasks := Function.update (fun c => updateTask (currentAndPower c))
        .uartTask .done } :=
  reaches_locked rfl rfl

theorem updates_serialise_current :
    ∃ s : System Caller Int16 scriptedZcl.State MeterUpdate,
      s.begun = [(.uartTask, .rmsCurrent 0 7)] ∧ s.holder = none ∧
      s.inside = inOrder scriptedZcl.underLock s.begun
        (scriptedMeter []).state ∧
      @Holds scriptedZcl.toEspZigbee (shared s) (.rmsCurrent 0 7) := by
  obtain ⟨hinside, _, hholds, _⟩ := updates_serialise scriptedZcl
    currentAndPower (scriptedMeter []) _ currentAndPower_reaches
  exact ⟨_, rfl, rfl, hinside rfl, hholds _ scripted_acceptsFrom rfl rfl
    (fun _ _ => currentAndPower_fitting) (.rmsCurrent 0) _ rfl⟩

/-! ## The remembered power -/

theorem updateTask_ne_wait (calls : List MeterUpdate) (powerWatts : Int16)
    (next : Task Int16 MeterUpdate) :
    updateTask calls ≠ .locked (.activePower powerWatts) next := by
  intro h
  rcases calls with _ | ⟨u, calls⟩
  · cases h
  cases u <;> cases h

/-- What is kept when one task alone makes the calls for the power. -/
structure Agreeing (zb : EspZigbee) (calls : ι → List MeterUpdate) (i : ι)
    (prev : Int16) (state : zb.State) (tasks : ι → Task Int16 MeterUpdate) :
    Prop where
  rest : ∀ j, ∃ rest, At rest (tasks j) ∧ ∀ u ∈ rest, u ∈ calls j
  waits : ∀ powerWatts next,
    tasks i = .locked (.activePower powerWatts) next → prev = powerWatts
  agrees : @Shows zb ⟨prev, state⟩ prev ∨
    ∃ powerWatts next, tasks i = .locked (.activePower powerWatts) next

theorem rest_update {tasks : ι → Task Int16 MeterUpdate}
    (h : ∀ j, ∃ rest, At rest (tasks j) ∧ ∀ u ∈ rest, u ∈ calls j) {j : ι}
    {task : Task Int16 MeterUpdate} {rest : List MeterUpdate}
    (hat : At rest task) (hrest : ∀ u ∈ rest, u ∈ calls j) :
    ∀ k, ∃ rest, At rest (Function.update tasks j task k) ∧
      ∀ u ∈ rest, u ∈ calls k := by
  intro k
  by_cases hk : k = j
  · subst hk
    rw [Function.update_self]
    exact ⟨rest, hat, hrest⟩
  · rw [Function.update_of_ne hk]
    exact h k

section

variable {i : ι} {prev : Int16} {state : zb.State}
  {tasks : ι → Task Int16 MeterUpdate}
  (hagree : Agreeing zb calls i prev state tasks)
  (honly : ∀ j, ∀ powerWatts, .activePower powerWatts ∈ calls j → j = i)

include hagree honly

theorem Agreeing.move {j : ι} {f : Int16 → Int16}
    {next : Int16 → Task Int16 MeterUpdate}
    (htask : tasks j = .free f next) :
    Agreeing zb calls i (f prev) state
      (Function.update tasks j (next prev)) := by
  obtain ⟨rest, hat, hrest⟩ := hagree.rest j
  rw [htask] at hat
  obtain ⟨powerWatts, rest, rfl, hcases⟩ := hat.free
  obtain rfl := honly j powerWatts (hrest _ List.mem_cons_self)
  have htail : ∀ u ∈ rest, u ∈ calls j := fun u hu =>
    hrest u (List.mem_cons_of_mem _ hu)
  rcases hcases with ⟨rfl, hnext⟩ | ⟨rfl, hnext⟩
  · -- The value is compared: the task does not wait, before or after.
    have hshows : @Shows zb ⟨prev, state⟩ prev := by
      rcases hagree.agrees with hshows | ⟨_, _, hwait⟩
      · exact hshows
      · rw [htask] at hwait
        cases hwait
    rcases hnext prev with ⟨_, hnext⟩ | ⟨_, hnext⟩ <;> rw [hnext]
    · refine ⟨rest_update hagree.rest (.next rest) htail, fun p task hp => ?_,
        Or.inl hshows⟩
      rw [Function.update_self] at hp
      exact absurd hp (updateTask_ne_wait rest p task)
    · refine ⟨rest_update hagree.rest (.set powerWatts rest) hrest,
        fun p task hp => ?_, Or.inl hshows⟩
      rw [Function.update_self] at hp
      cases hp
  · rw [hnext]
    refine ⟨rest_update hagree.rest (.wait powerWatts rest) hrest,
      fun p task hp => ?_, Or.inr ⟨powerWatts, _, Function.update_self ..⟩⟩
    rw [Function.update_self] at hp
    cases hp
    rfl

/-- What is made under the lock is there when the lock is free again. -/
theorem Agreeing.stay {j : ι} {u : MeterUpdate}
    {next : Task Int16 MeterUpdate} (htask : tasks j = .locked u next)
    {state' : zb.State} (hnew : @Holds zb ⟨prev, state'⟩ u)
    (hkept : ∀ u', channelOf u' ∈ channels → channelOf u' ≠ channelOf u →
      @Holds zb ⟨prev, state⟩ u' → @Holds zb ⟨prev, state'⟩ u') :
    Agreeing zb calls i prev state' (Function.update tasks j next) := by
  obtain ⟨rest, hat, hrest⟩ := hagree.rest j
  rw [htask] at hat
  obtain ⟨rest, rfl, rfl⟩ := hat.locked
  have htail : ∀ v ∈ rest, v ∈ calls j := fun v hv =>
    hrest v (List.mem_cons_of_mem _ hv)
  have hrests := rest_update hagree.rest (.next rest) htail
  by_cases hpower : channelOf u = .activePower
  · cases u with
    | activePower powerWatts =>
        obtain rfl := honly j powerWatts (hrest _ List.mem_cons_self)
        obtain rfl := hagree.waits powerWatts _ htask
        refine ⟨hrests, fun p task hp => ?_,
          Or.inl (holds_activePower.mp hnew)⟩
        rw [Function.update_self] at hp
        exact absurd hp (updateTask_ne_wait rest p task)
    | _ => cases hpower
  · have hother : ∀ {powerWatts : Int16} {task : Task Int16 MeterUpdate},
        Function.update tasks j (updateTask rest) i =
            .locked (.activePower powerWatts) task →
          tasks i = .locked (.activePower powerWatts) task := by
      intro powerWatts task hwait
      by_cases hij : i = j
      · rw [hij, Function.update_self] at hwait
        exact absurd hwait (updateTask_ne_wait rest powerWatts task)
      · rw [Function.update_of_ne hij] at hwait
        exact hwait
    refine ⟨hrests, fun p task hp => hagree.waits p task (hother hp), ?_⟩
    rcases hagree.agrees with hshows | ⟨p, task, hwait⟩
    · exact Or.inl (holds_activePower.mp (hkept (.activePower prev)
        List.mem_cons_self (Ne.symm hpower) (holds_activePower.mpr hshows)))
    · refine Or.inr ⟨p, task, ?_⟩
      rw [Function.update_of_ne]
      · exact hwait
      · intro hij
        rw [hij, htask] at hwait
        cases hwait
        exact hpower rfl

end

/-- As long as one task alone makes the calls for the power, both attributes
hold what is remembered whenever nobody has the lock, unless that task waits
for it with a value just remembered. -/
theorem single_caller_agrees {zb : EspZcl} {good : zb.State → Prop}
    (haccepts : AcceptsFrom zb good) {meter : zb.Meter}
    (hgood : good meter.state) (hshows : Shows meter meter.prev)
    (hcalls : ∀ j, ∀ u ∈ calls j, Fitting u) (i : ι)
    (honly : ∀ j, ∀ powerWatts, .activePower powerWatts ∈ calls j → j = i)
    {s : System ι Int16 zb.State MeterUpdate}
    (h : Reaches zb.underLock (zb.updateSystem calls meter) s)
    (hfree : s.holder = none) :
    @Shows zb.toEspZigbee (shared s) s.outside ∨
      ∃ next, s.tasks i = .locked (.activePower s.outside) next := by
  have hboth : good s.settled ∧
      Agreeing zb.toEspZigbee calls i s.outside s.settled s.tasks := by
    refine h.invariant (fun prev state _ tasks => good state ∧
      Agreeing zb.toEspZigbee calls i prev state tasks) ?_ ?_ ?_
    · refine ⟨hgood, fun j => ⟨calls j, .next _, fun u hu => hu⟩,
        fun p task hp => ?_, Or.inl hshows⟩
      exact absurd hp (updateTask_ne_wait (calls i) p task)
    · intro prev state begun tasks j f next ⟨hgood, hagree⟩ htask
      exact ⟨hgood, hagree.move honly htask⟩
    · intro prev state begun tasks j u next ⟨hgood, hagree⟩ htask
      have hmem : u ∈ calls j := by
        obtain ⟨rest, hat, hrest⟩ := hagree.rest j
        rw [htask] at hat
        obtain ⟨rest, rfl, _⟩ := hat.locked
        exact hrest u List.mem_cons_self
      obtain ⟨hnew, hkept⟩ := haccepts.finish_holds hgood (hcalls j u hmem) prev
      exact ⟨haccepts.finish hgood u, hagree.stay honly htask hnew hkept⟩
  obtain ⟨_, hagree⟩ := hboth
  rw [System.settled_of_none hfree] at hagree
  rcases hagree.agrees with hshows | ⟨powerWatts, next, hwait⟩
  · exact Or.inl hshows
  · exact Or.inr ⟨next, by rw [hwait, hagree.waits powerWatts next hwait]⟩

theorem single_caller_agrees_current :
    ∃ s : System Caller Int16 scriptedZcl.State MeterUpdate,
      s.begun = [(.uartTask, .rmsCurrent 0 7)] ∧
      (@Shows scriptedZcl.toEspZigbee (shared s) s.outside ∨
        ∃ next, s.tasks .timerTask =
          .locked (.activePower s.outside) next) := by
  refine ⟨_, rfl, single_caller_agrees scripted_acceptsFrom rfl
    (scriptedMeter_initial []).shows_prev (fun _ _ => currentAndPower_fitting)
    .timerTask (fun j powerWatts hu => ?_) currentAndPower_reaches rfl⟩
  cases j with
  | uartTask => cases List.mem_singleton.mp hu
  | timerTask => rfl

/-- A call for the power up to the lock. -/
theorem reaches_wait {i : ι} {powerWatts : Int16} {rest : List MeterUpdate}
    (hfree : s.holder = none)
    (htask : s.tasks i = updateTask (.activePower powerWatts :: rest))
    (hne : s.outside ≠ powerWatts) :
    Reaches zb.underLock s { s with
      outside := powerWatts
      tasks := Function.update s.tasks i
        (.locked (.activePower powerWatts) (updateTask rest)) } := by
  rw [updateTask] at htask
  have hcompare := @reaches_free _ _ _ _ _ zb.underLock s i _ _ hfree htask
  rw [if_neg hne] at hcompare
  have hset := @reaches_free _ _ _ _ _ zb.underLock { s with
      outside := id s.outside
      tasks := Function.update s.tasks i
        (rememberPower powerWatts (updateTask rest)) } i _ _ hfree
    (Function.update_self ..)
  rw [Function.update_idem] at hset
  exact hcompare.trans hset

/-- When calls for two powers overlap, it can be that the one is shown and the
other is remembered. The call that would put it right is then left out. -/
theorem overlapping_calls {zb : EspZcl} {good : zb.State → Prop}
    (haccepts : AcceptsFrom zb good)
    {s : System ι Int16 zb.State MeterUpdate} (hgood : good s.inside)
    (hfree : s.holder = none) {i j : ι} (hij : i ≠ j) {p q : Int16}
    {us vs : List MeterUpdate}
    (hi : s.tasks i = updateTask (.activePower p :: us))
    (hj : s.tasks j = updateTask (.activePower q :: vs)) (hpq : p ≠ q)
    (hq : s.outside ≠ q) :
    ∃ t : System ι Int16 zb.State MeterUpdate,
      Reaches zb.underLock s t ∧ t.holder = none ∧ t.outside = p ∧
      @Shows zb.toEspZigbee (shared t) q ∧ t.tasks i = updateTask us ∧
      t.tasks j = updateTask vs ∧
      zb.zigbeeMeterUpdateActivePower p (shared t) = shared t := by
  -- `j` goes up to the lock, `i` makes its call, and then `j` gets the lock.
  have hfirst := reaches_wait hfree hj hq
  have hsecond := @reaches_wait zb.toEspZigbee ι _ { s with
      outside := q
      tasks := Function.update s.tasks j
        (.locked (.activePower q) (updateTask vs)) } i p us hfree
    ((Function.update_of_ne hij ..).trans hi) (Ne.symm hpq)
  have hthird := @reaches_locked _ _ _ _ _ zb.underLock { s with
      outside := p
      tasks := Function.update (Function.update s.tasks j
        (.locked (.activePower q) (updateTask vs))) i
        (.locked (.activePower p) (updateTask us)) } i _ _ hfree
    (Function.update_self ..)
  rw [Function.update_idem] at hthird
  have hfourth := @reaches_locked _ _ _ _ _ zb.underLock { s with
      outside := p
      inside := (zb.underLock (.activePower p)).finish s.inside
      holder := none
      begun := s.begun ++ [(i, .activePower p)]
      tasks := Function.update (Function.update s.tasks j
        (.locked (.activePower q) (updateTask vs))) i (updateTask us) } j
    (.activePower q) (updateTask vs) rfl
    ((Function.update_of_ne (Ne.symm hij) ..).trans (Function.update_self ..))
  refine ⟨_, ((hfirst.trans hsecond).trans hthird).trans hfourth, rfl, rfl,
    ?_, ?_, Function.update_self .., update_same rfl⟩
  · exact holds_activePower.mp (haccepts.finish_holds
      (haccepts.finish hgood (.activePower p)) (u := .activePower q)
      ⟨List.mem_cons_self, trivial⟩ p).1
  · exact (Function.update_of_ne hij ..).trans (Function.update_self ..)

/-- A power from each of the tasks. -/
def twoPowers : Caller → List MeterUpdate
  | .uartTask => [.activePower 5]
  | .timerTask => [.activePower 7]

theorem overlapping_calls_twoPowers :
    ∃ t : System Caller Int16 scriptedZcl.State MeterUpdate,
      Reaches scriptedZcl.underLock
        (scriptedZcl.updateSystem twoPowers (scriptedMeter [])) t ∧
      t.holder = none ∧ t.outside = 5 ∧
      @Shows scriptedZcl.toEspZigbee (shared t) 7 ∧
      t.tasks .uartTask = updateTask [] ∧
      t.tasks .timerTask = updateTask [] ∧
      scriptedZcl.zigbeeMeterUpdateActivePower 5 (shared t) = shared t :=
  overlapping_calls scripted_acceptsFrom rfl rfl (by decide) rfl rfl
    (by decide) (by decide)

end MBusMeter.Proofs
