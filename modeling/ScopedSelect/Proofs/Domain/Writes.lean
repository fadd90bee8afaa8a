import ScopedSelect.Domain.Basic

/-!
# Writing to a domain

A nested query starts from the state of its caller and hands back what it made of it.  Every key of
the caller stands at its place in what comes back, so that storing the entries one by one gives the
state of the nested query itself (`setAll_eq_of_keys_isPrefix`).  Values that are bound one after
the other collect under one key and touch no other (`addAll`, `bindAll`).

A domain is written to by setting a key, by adding a value under a key and by binding a value.  None
of these looks at the scope or changes it, and none removes a key or moves one.  So what a nested
query wrote to its own domain comes back as if it had been written to the domain around it
(`Domain.takeState_writeAll`).
-/

namespace ScopedSelect
namespace State

theorem alterEntries_append_of_notMem {key : String} (f : Option Slot → Slot)
    {done : List (String × Slot)} (entries : List (String × Slot))
    (h : key ∉ done.map Prod.fst) :
    alterEntries key f (done ++ entries) = done ++ alterEntries key f entries := by
  induction done with
  | nil => rfl
  | cons entry done ih =>
    obtain ⟨k, slot⟩ := entry
    rw [List.map_cons, List.mem_cons, not_or] at h
    simp [alterEntries, beq_false_of_ne h.1, ih h.2]

/-- Entries are stored in place as long as there are old ones, and at the end after that: what is
done stands in front of what is left of the old entries. -/
theorem foldl_alterEntries {done todo old : List (String × Slot)}
    (hnodup : ((done ++ todo).map Prod.fst).Nodup)
    (hold : old.map Prod.fst <+: todo.map Prod.fst) :
    todo.foldl (fun entries entry ↦ alterEntries entry.1 (fun _ ↦ entry.2) entries) (done ++ old) =
      done ++ todo := by
  induction todo generalizing done old with
  | nil => simp_all
  | cons entry todo ih =>
    obtain ⟨key, slot⟩ := entry
    have hkey : key ∉ done.map Prod.fst := by
      rw [List.map_append, List.nodup_append] at hnodup
      exact fun h ↦ hnodup.2.2 key h key (by simp) rfl
    have hnodup' : (((done ++ [(key, slot)]) ++ todo).map Prod.fst).Nodup := by
      simpa using hnodup
    rw [List.foldl_cons, alterEntries_append_of_notMem _ _ hkey]
    cases old with
    | nil =>
      have hnil : ([] : List (String × Slot)).map Prod.fst <+: todo.map Prod.fst :=
        List.nil_prefix
      simpa [alterEntries] using ih hnodup' hnil
    | cons entry' old =>
      obtain ⟨key', slot'⟩ := entry'
      obtain ⟨rfl, hrest⟩ : key' = key ∧ old.map Prod.fst <+: todo.map Prod.fst := by
        simpa using hold
      simpa [alterEntries] using ih hnodup' hrest

theorem entries_setAll (s other : State) :
    (s.setAll other).entries =
      other.entries.foldl (fun entries entry ↦ alterEntries entry.1 (fun _ ↦ entry.2) entries)
        s.entries := by
  unfold setAll
  generalize other.entries = entries
  induction entries generalizing s with
  | nil => rfl
  | cons entry entries ih => exact ih _

/-- Storing every entry of a state that keeps the keys of this one at their places gives that
state. -/
theorem setAll_eq_of_keys_isPrefix {s other : State} (h : s.keys <+: other.keys) :
    s.setAll other = other := by
  apply State.ext
  rw [entries_setAll]
  have hnodup : ((([] : List (String × Slot)) ++ other.entries).map Prod.fst).Nodup := other.nodup
  simpa using foldl_alterEntries hnodup h

theorem keys_isPrefix_alter (s : State) (key : String) (f : Option Slot → Slot) :
    s.keys <+: (s.alter key f).keys := by
  rw [keys_alter]
  split
  · exact List.prefix_rfl
  · exact List.prefix_append _ _

def addAll (s : State) (key : String) (vs : List Value) : State :=
  vs.foldl (fun s v ↦ s.add key v) s

theorem addAll_append (s : State) (key : String) (vs ws : List Value) :
    s.addAll key (vs ++ ws) = (s.addAll key vs).addAll key ws :=
  List.foldl_append

theorem keys_isPrefix_addAll (s : State) (key : String) (vs : List Value) :
    s.keys <+: (s.addAll key vs).keys := by
  induction vs generalizing s with
  | nil => exact List.prefix_rfl
  | cons v vs ih => exact (keys_isPrefix_alter s key _).trans (ih (s.add key v))

theorem keys_add (s : State) (key : String) (v : Value) :
    (s.add key v).keys = if key ∈ s.keys then s.keys else s.keys ++ [key] :=
  keys_alter s key _

theorem keys_addAll_of_mem {s : State} {key : String} (h : key ∈ s.keys) (vs : List Value) :
    (s.addAll key vs).keys = s.keys := by
  induction vs generalizing s with
  | nil => rfl
  | cons v vs ih =>
    have hadd : (s.add key v).keys = s.keys := (keys_add s key v).trans (if_pos h)
    exact (ih (hadd ▸ h)).trans hadd

/-- The only key that can be new is the one that was written. -/
theorem keys_addAll (s : State) (key : String) (vs : List Value) :
    (s.addAll key vs).keys = s.keys ∨ (s.addAll key vs).keys = s.keys ++ [key] := by
  by_cases hkey : key ∈ s.keys
  · exact .inl (keys_addAll_of_mem hkey vs)
  · cases vs with
    | nil => exact .inl rfl
    | cons v vs =>
      have hadd : (s.add key v).keys = s.keys ++ [key] := (keys_add s key v).trans (if_neg hkey)
      exact .inr ((keys_addAll_of_mem (by simp [hadd]) vs).trans hadd)

theorem find?_addAll_of_ne (s : State) {key other : String} (h : other ≠ key) (vs : List Value) :
    (s.addAll key vs).find? other = s.find? other := by
  induction vs generalizing s with
  | nil => rfl
  | cons v vs ih => exact (ih (s.add key v)).trans (find?_alter_of_ne s h _)

/-- What was handed on and comes back with more values is taken over as it is. -/
@[simp] theorem setAll_addAll (s : State) (key : String) (vs : List Value) :
    s.setAll (s.addAll key vs) = s.addAll key vs :=
  setAll_eq_of_keys_isPrefix (keys_isPrefix_addAll s key vs)

end State

namespace Domain

def bindAll (d : Domain) (vs : List Value) : Domain :=
  { d with state := d.state.addAll boundKey vs }

@[simp] theorem scope_bindAll (d : Domain) (vs : List Value) : (d.bindAll vs).scope = d.scope := rfl

@[simp] theorem bindAll_nil (d : Domain) : d.bindAll [] = d := rfl

theorem bindAll_append (d : Domain) (vs ws : List Value) :
    d.bindAll (vs ++ ws) = (d.bindAll vs).bindAll ws := by
  simp [bindAll, State.addAll_append]

@[simp] theorem boundValues_bindAll (d : Domain) (vs : List Value) :
    (d.bindAll vs).boundValues = d.boundValues ++ vs := by
  induction vs generalizing d with
  | nil => simp
  | cons v vs ih =>
    have h : d.bindAll (v :: vs) = (d.bind v).bindAll vs := rfl
    simp [h, ih]

/-- One domain is another after several values were bound, and nothing else has changed. -/
structure OnlyBinds (before after : Domain) (vs : List Value) : Prop where
  scope : after.scope = before.scope
  boundValues : after.boundValues = before.boundValues ++ vs
  find? : ∀ key, key ≠ boundKey → after.state.find? key = before.state.find? key
  keys : after.state.keys = before.state.keys ∨ after.state.keys = before.state.keys ++ [boundKey]
  unchanged : vs = [] → after = before

theorem onlyBinds_bindAll (d : Domain) (vs : List Value) : d.OnlyBinds (d.bindAll vs) vs where
  scope := rfl
  boundValues := boundValues_bindAll d vs
  find? _ h := State.find?_addAll_of_ne d.state h vs
  keys := State.keys_addAll d.state boundKey vs
  unchanged := by
    rintro rfl
    exact bindAll_nil d

/-- What a nested query bound is bound in the domain around it. -/
@[simp] theorem takeState_bindAll (d : Domain) (s : Scope) (vs : List Value) :
    d.takeState (bindAll { d with scope := s } vs) = d.bindAll vs := by
  simp [takeState, bindAll]

end Domain

inductive Write where
  | set (key : String) (v : Value)
  | add (key : String) (v : Value)
  | bind (v : Value)

namespace Domain

def write (d : Domain) : Write → Domain
  | .set key v => d.set key v
  | .add key v => d.add key v
  | .bind v => d.bind v

/-- The domain after several writes, one after the other. -/
def writeAll (d : Domain) (ws : List Write) : Domain :=
  ws.foldl write d

@[simp] theorem writeAll_nil (d : Domain) : d.writeAll [] = d := rfl

theorem writeAll_append (d : Domain) (ws ws' : List Write) :
    d.writeAll (ws ++ ws') = (d.writeAll ws).writeAll ws' :=
  List.foldl_append

/-- A write does the same to the state in every scope. -/
theorem write_scope (d : Domain) (s : Scope) (w : Write) :
    write { d with scope := s } w = { d.write w with scope := s } := by
  cases w <;> rfl

theorem writeAll_scope (d : Domain) (s : Scope) (ws : List Write) :
    writeAll { d with scope := s } ws = { d.writeAll ws with scope := s } := by
  induction ws generalizing d with
  | nil => rfl
  | cons w ws ih =>
    have hw : writeAll { d with scope := s } (w :: ws) =
        writeAll { d.write w with scope := s } ws :=
      congrArg (writeAll · ws) (write_scope d s w)
    rw [hw, ih]
    rfl

@[simp] theorem scope_writeAll (d : Domain) (ws : List Write) :
    (d.writeAll ws).scope = d.scope := by
  have h : d.writeAll ws = { d.writeAll ws with scope := d.scope } := writeAll_scope d d.scope ws
  rw [h]

theorem state_writeAll_scope (d : Domain) (s : Scope) (ws : List Write) :
    (writeAll { d with scope := s } ws).state = (d.writeAll ws).state := by
  rw [writeAll_scope]

theorem keys_isPrefix_write (d : Domain) (w : Write) : d.state.keys <+: (d.write w).state.keys := by
  cases w <;> exact State.keys_isPrefix_alter d.state _ _

/-- Keys that are there stay at their places. -/
theorem keys_isPrefix_writeAll (d : Domain) (ws : List Write) :
    d.state.keys <+: (d.writeAll ws).state.keys := by
  induction ws generalizing d with
  | nil => exact List.prefix_rfl
  | cons w ws ih => exact (keys_isPrefix_write d w).trans (ih (d.write w))

/-- What was written in another scope is taken over as if it had been written here. -/
theorem takeState_writeAll (d : Domain) (s : Scope) (ws : List Write) :
    d.takeState (writeAll { d with scope := s } ws) = d.writeAll ws := by
  have hstate : d.state.setAll (d.writeAll ws).state = (d.writeAll ws).state :=
    State.setAll_eq_of_keys_isPrefix (keys_isPrefix_writeAll d ws)
  calc d.takeState (writeAll { d with scope := s } ws)
    _ = { d with state := d.state.setAll (d.writeAll ws).state } := by
      rw [writeAll_scope, takeState]
    _ = { d.writeAll ws with scope := d.scope } := by rw [hstate]
    _ = d.writeAll ws := by rw [← writeAll_scope]

end Domain
end ScopedSelect
