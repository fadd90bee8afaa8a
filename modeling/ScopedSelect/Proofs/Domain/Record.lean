import Mathlib.Data.List.Induction
import ScopedSelect.Proofs.Domain.Writes

/-!
# The state records what was written

A domain is written to, enters the scope of a query, or hands a copy of itself on to steps of their
own and takes over their state.  However these are nested, the state is what all the writes leave
when they are made on one domain, one after the other.  Its keys stand in the order in which they
were first written.  Under a key is what was set there last, with everything that was added since
(`steps_recorded`).
-/

namespace ScopedSelect

/-- The values under a key: none, the one that was set, or those that were added. -/
def State.values (s : State) (key : String) : List Value :=
  (s.find? key).elim [] Slot.values

theorem Slot.push_eq (v : Value) (slot : Option Slot) :
    Slot.push v slot = .many (slot.elim [] Slot.values ++ [v]) := by
  cases slot <;> rfl

namespace Write

def key : Write → String
  | .set key _ | .add key _ => key
  | .bind _ => Domain.boundKey

/-- The slot under the key of a write, from what was there before. -/
def slot (previous : Option Slot) : Write → Slot
  | .set _ v => .one v
  | .add _ v | .bind v => .push v previous

/-- The value that a write adds under a key, if it adds one there. -/
def added? (key : String) : Write → Option Value
  | .set _ _ => none
  | .add key' v => if key' = key then some v else none
  | .bind v => if Domain.boundKey = key then some v else none

def added (key : String) (ws : List Write) : List Value :=
  ws.filterMap (added? key)

theorem added_cons (key : String) (w : Write) (ws : List Write) :
    added key (w :: ws) = (w.added? key).toList ++ added key ws := by
  unfold added
  cases h : w.added? key with
  | none => exact List.filterMap_cons_none h
  | some v => exact List.filterMap_cons_some h

end Write

namespace Domain

/-! ## Writes on one domain -/

section Writes

variable {d d' : Domain} {w : Write} {ws : List Write} {key : String}

theorem state_write (d : Domain) (w : Write) :
    (d.write w).state = d.state.alter w.key (w.slot ·) := by
  cases w <;> rfl

theorem find?_write_self (d : Domain) (w : Write) :
    (d.write w).state.find? w.key = some (w.slot (d.state.find? w.key)) := by
  rw [state_write, State.find?_alter_self]

theorem find?_write_of_ne (h : w.key ≠ key) :
    (d.write w).state.find? key = d.state.find? key := by
  rw [state_write, State.find?_alter_of_ne _ h.symm]

theorem find?_writeAll_of_ne (h : ∀ w ∈ ws, w.key ≠ key) :
    (d.writeAll ws).state.find? key = d.state.find? key := by
  induction ws generalizing d with
  | nil => rfl
  | cons w ws ih =>
    obtain ⟨hw, hws⟩ := List.forall_mem_cons.mp h
    exact (ih hws).trans (find?_write_of_ne hw)

theorem values_write (h : ∀ v, w ≠ .set key v) :
    (d.write w).state.values key = d.state.values key ++ (w.added? key).toList := by
  by_cases hkey : w.key = key
  · subst hkey
    rw [State.values, find?_write_self, Option.elim_some]
    cases w with
    | set key v => exact absurd rfl (h v)
    | add key v =>
      rw [Write.key, Write.added?, if_pos rfl]
      exact Slot.values_push v _
    | bind v =>
      rw [Write.key, Write.added?, if_pos rfl]
      exact Slot.values_push v _
  · have hnone : w.added? key = none := by
      cases w with
      | set _ _ => rfl
      | add _ _ => exact if_neg hkey
      | bind _ => exact if_neg hkey
    rw [State.values, find?_write_of_ne hkey, hnone]
    exact (List.append_nil _).symm

/-- As long as a key is not set, what is added under it follows what was there. -/
theorem values_writeAll (h : ∀ v, .set key v ∉ ws) :
    (d.writeAll ws).state.values key = d.state.values key ++ Write.added key ws := by
  induction ws generalizing d with
  | nil => exact (List.append_nil _).symm
  | cons w ws ih =>
    have hw : ∀ v, w ≠ .set key v := fun v hv ↦ h v (hv ▸ List.mem_cons_self)
    have hws : ∀ v, .set key v ∉ ws := fun v hv ↦ h v (List.mem_cons_of_mem w hv)
    calc (d.writeAll (w :: ws)).state.values key
      _ = (d.write w).state.values key ++ Write.added key ws := ih hws
      _ = d.state.values key ++ ((w.added? key).toList ++ Write.added key ws) := by
        rw [values_write hw, List.append_assoc]
      _ = d.state.values key ++ Write.added key (w :: ws) := by rw [Write.added_cons]

theorem keys_writeAll_fresh (ws : List Write) :
    (fresh.writeAll ws).state.keys = (ws.map Write.key).eraseDups := by
  induction ws using List.reverseRec with
  | nil => rfl
  | append_singleton ws w ih =>
    calc (fresh.writeAll (ws ++ [w])).state.keys
      _ = ((fresh.writeAll ws).write w).state.keys := by
        rw [writeAll_append]
        rfl
      _ = if w.key ∈ ws.map Write.key then (ws.map Write.key).eraseDups
          else (ws.map Write.key).eraseDups ++ [w.key] := by
        rw [state_write, State.keys_alter, ih]
        simp
      _ = ((ws ++ [w]).map Write.key).eraseDups := by
        rw [List.map_append, List.eraseDups_append]
        by_cases hmem : w.key ∈ ws.map Write.key <;>
          simp [List.cons_removeAll, List.eraseDups_cons, hmem]

theorem state_writeAll_congr (h : d.state = d'.state) (ws : List Write) :
    (d.writeAll ws).state = (d'.writeAll ws).state := by
  have hd : d = { d' with scope := d.scope } := by
    rw [← h]
  rw [hd, state_writeAll_scope]

end Writes

/-! ## Nested steps -/

/-- What is done to a domain: it is written to, it enters the scope of a query, or a copy of it goes
through steps of its own and hands back its state. -/
inductive Step where
  | write (w : Write)
  | enter (sources joined : List TableSymbol) (selected : List ColumnSymbol)
  | nested (steps : List Step)

mutual

def run (d : Domain) : Step → Domain
  | .write w => d.write w
  | .enter sources joined selected => d.nest sources joined selected
  | .nested steps => d.takeState (runAll d steps)

/-- The domain after several steps.  As a nested domain starts as a copy, this is also the domain
inside of a nesting that was entered on the way. -/
def runAll (d : Domain) : List Step → Domain
  | [] => d
  | step :: steps => runAll (run d step) steps

end

namespace Step

mutual

/-- The writes of a step, in the order in which they are made. -/
def writes : Step → List Write
  | .write w => [w]
  | .enter _ _ _ => []
  | .nested steps => allWrites steps

def allWrites : List Step → List Write
  | [] => []
  | step :: steps => writes step ++ allWrites steps

end

end Step

theorem runAll_append (d : Domain) (steps more : List Step) :
    d.runAll (steps ++ more) = (d.runAll steps).runAll more := by
  induction steps generalizing d with
  | nil => rfl
  | cons step steps ih => exact ih (d.run step)

mutual

/-- A step comes down to its writes.  The keys of the caller stand in front of what a nested run
hands back, so that nothing moves when the entries are stored one by one. -/
theorem state_run (d : Domain) : ∀ step : Step, (d.run step).state = (d.writeAll step.writes).state
  | .write _ => rfl
  | .enter _ _ _ => rfl
  | .nested steps => by
    have hprefix : d.state.keys <+: (d.writeAll (Step.allWrites steps)).state.keys :=
      keys_isPrefix_writeAll d _
    calc (d.run (.nested steps)).state
      _ = d.state.setAll (d.runAll steps).state := rfl
      _ = d.state.setAll (d.writeAll (Step.allWrites steps)).state := by rw [state_runAll d steps]
      _ = (d.writeAll (Step.allWrites steps)).state := State.setAll_eq_of_keys_isPrefix hprefix

theorem state_runAll (d : Domain) :
    ∀ steps : List Step, (d.runAll steps).state = (d.writeAll (Step.allWrites steps)).state
  | [] => rfl
  | step :: steps => by
    calc (d.runAll (step :: steps)).state
      _ = ((d.run step).writeAll (Step.allWrites steps)).state := state_runAll (d.run step) steps
      _ = ((d.writeAll step.writes).writeAll (Step.allWrites steps)).state :=
        state_writeAll_congr (state_run d step) _
      _ = (d.writeAll (Step.allWrites (step :: steps))).state := by
        rw [← writeAll_append, Step.allWrites]

end

/-- How a state is continued by steps: every key of it stays at its place, what is under a key that
is not written to stays as it is, and the values under a key that is not set stay in front of those
that are added there. -/
structure Continues (steps : List Step) (s s' : State) : Prop where
  keys : s.keys <+: s'.keys
  untouched : ∀ key, (∀ w ∈ Step.allWrites steps, w.key ≠ key) → s'.find? key = s.find? key
  added : ∀ key, (∀ v, .set key v ∉ Step.allWrites steps) →
    s'.values key = s.values key ++ Write.added key (Step.allWrites steps)

theorem continues_runAll (d : Domain) (steps : List Step) :
    Continues steps d.state (d.runAll steps).state := by
  rw [state_runAll]
  exact ⟨keys_isPrefix_writeAll d _, fun _ ↦ find?_writeAll_of_ne, fun _ ↦ values_writeAll⟩

/-- The state of a fresh domain after some steps. -/
def recorded (steps : List Step) : State :=
  (fresh.runAll steps).state

theorem recorded_append (steps more : List Step) :
    recorded (steps ++ more) = ((fresh.runAll steps).runAll more).state :=
  congrArg state (runAll_append fresh steps more)

theorem find?_recorded_write (steps : List Step) (w : Write) :
    (recorded (steps ++ [.write w])).find? w.key =
      some (w.slot ((recorded steps).find? w.key)) := by
  rw [recorded_append]
  exact find?_write_self (fresh.runAll steps) w

end Domain

open Domain

/-- Whatever is done to a fresh domain, and however nested, its state is the one that all the writes
leave on one domain.  No key stands there twice, and each stands where its first write put it.  Any
further steps continue it.  A value that is set is all there is under its key then, and a value that
is added or bound comes behind the one or the many that were there. -/
theorem steps_recorded (steps : List Step) :
    recorded steps = (fresh.writeAll (Step.allWrites steps)).state ∧
    (recorded steps).keys = ((Step.allWrites steps).map Write.key).eraseDups ∧
    (recorded steps).keys.Nodup ∧
    (∀ more, Continues more (recorded steps) (recorded (steps ++ more))) ∧
    (∀ key v, (recorded (steps ++ [.write (.set key v)])).find? key = some (.one v)) ∧
    (∀ key v, (recorded (steps ++ [.write (.add key v)])).find? key =
      some (.many ((recorded steps).values key ++ [v]))) ∧
    ∀ v, (recorded (steps ++ [.write (.bind v)])).find? boundKey =
      some (.many ((recorded steps).values boundKey ++ [v])) := by
  have hstate : recorded steps = (fresh.writeAll (Step.allWrites steps)).state :=
    state_runAll fresh steps
  refine ⟨hstate, hstate ▸ keys_writeAll_fresh _, (recorded steps).nodup, fun more ↦ ?_,
    fun key v ↦ find?_recorded_write steps (.set key v), fun key v ↦ ?_, fun v ↦ ?_⟩
  · rw [recorded_append]
    exact continues_runAll _ more
  · exact (find?_recorded_write steps (.add key v)).trans (congrArg some (Slot.push_eq v _))
  · exact (find?_recorded_write steps (.bind v)).trans (congrArg some (Slot.push_eq v _))

/-- A mode that is set, and a query in a query, in which a hint is set and the mode becomes one of
several. -/
def Domain.Step.hinted : List Step := [
  .write (.set "mode" (.text "strict")),
  .write (.bind (.int32 1)),
  .nested [
    .enter [⟨"orders", some "o"⟩] [] [⟨none, some "total", none⟩],
    .write (.bind (.int32 2)),
    .write (.set "hint" (.text "index")),
    .nested [.write (.add "mode" (.text "loose"))]]]

/-- The hint is replaced and more is bound in another query, which leaves the modes as they were and
the hint between them and the tag that comes last. -/
theorem hinted_recorded :
    let more : List Step := [
      .nested [.write (.bind (.int32 3)), .write (.set "hint" (.text "scan"))],
      .write (.add "tags" (.text "t"))]
    (∀ w ∈ Step.allWrites more, w.key ≠ "mode") ∧
      (∀ v, .set boundKey v ∉ Step.allWrites more) ∧
      (recorded Step.hinted).keys = ["mode", "boundParams", "hint"] ∧
      (recorded (Step.hinted ++ more)).keys = ["mode", "boundParams", "hint", "tags"] ∧
      (recorded (Step.hinted ++ more)).find? "mode" =
        some (.many [.text "strict", .text "loose"]) ∧
      (recorded (Step.hinted ++ more)).values boundKey = [.int32 1, .int32 2, .int32 3] := by
  intro more
  have hmode : ∀ w ∈ Step.allWrites more, w.key ≠ "mode" := by
    simp [more, Step.allWrites, Step.writes, Write.key, boundKey]
  have hbound : ∀ v, .set boundKey v ∉ Step.allWrites more := by
    simp [more, Step.allWrites, Step.writes, boundKey]
  obtain ⟨-, hkeys, -, hcontinues, -⟩ := steps_recorded Step.hinted
  obtain ⟨-, hkeys', -⟩ := steps_recorded (Step.hinted ++ more)
  refine ⟨hmode, hbound, hkeys.trans (by decide), hkeys'.trans (by decide), ?_, ?_⟩
  · rw [(hcontinues more).untouched "mode" hmode]
    rfl
  · rw [(hcontinues more).added boundKey hbound]
    rfl

end ScopedSelect
