import ScopedSelect.Proofs.Tree.Occurrence
import ScopedSelect.Shorthand.Query

/-!
# Edits of a query

A query is put together by edits, each of which changes one clause or takes one step of the short
notation.  They are listed here as data, so that a query can be followed through any sequence of
them.  What an edit keeps is said clause by clause: `Query.Each` asks something of every expression
that stands in a clause, and each function that changes a clause keeps it if what it adds has it.
-/

namespace ScopedSelect

section Steps

variable {ε α β : Type}

theorem exists_of_bind_eq_ok {x : Except ε α} {f : α → Except ε β} {b : β}
    (h : (x >>= f) = .ok b) : ∃ a, x = .ok a ∧ f a = .ok b := by
  cases x with
  | error e => exact absurd h (by simp [bind, Except.bind])
  | ok a => exact ⟨a, rfl, h⟩

/-- What each step keeps is kept by all steps, if none of them refuses. -/
theorem foldlM_keeps {P : β → Prop} {f : β → α → Except ε β}
    (hf : ∀ {b a b'}, P b → f b a = .ok b' → P b') {xs : List α} {b b' : β} (hb : P b)
    (h : xs.foldlM f b = .ok b') : P b' := by
  induction xs generalizing b with
  | nil =>
    obtain rfl : b = b' := Except.ok.inj h
    exact hb
  | cons x xs ih =>
    rw [List.foldlM_cons] at h
    obtain ⟨c, hc, hrest⟩ := exists_of_bind_eq_ok h
    exact ih (hf hb hc) hrest

variable {P : α → Prop} {xs : List α} {x : α}

theorem Clause.forall_mem_push (c : Clause) (hxs : ∀ y ∈ xs, P y) (hx : P x) :
    ∀ y ∈ c.push xs x, P y := by
  intro y hy
  unfold Clause.push at hy
  split at hy
  · exact (List.mem_singleton.mp hy) ▸ hx
  · rcases List.mem_append.mp hy with hy | hy
    · exact hxs y hy
    · exact (List.mem_singleton.mp hy) ▸ hx

theorem Clause.mem_of_mem_keep (c : Clause) (h : x ∈ c.keep xs) : x ∈ xs := by
  unfold Clause.keep at h
  split at h
  · exact List.mem_of_getLast? (Option.mem_toList.mp h)
  · exact h

/-- Nothing changes if no member that passes the test is changed. -/
theorem Query.replaceFirst_eq_self {test : α → Bool} {f : α → α}
    (h : ∀ y ∈ xs, test y = true → f y = y) : replaceFirst test f xs = xs := by
  induction xs with
  | nil => rfl
  | cons x xs ih =>
    obtain ⟨hx, hxs⟩ := List.forall_mem_cons.mp h
    unfold replaceFirst
    split
    · rename_i htest
      rw [hx htest]
    · rw [ih hxs]

/-- Only the first member that passes the test is replaced. -/
theorem Query.replaceFirst_append_cons {test : α → Bool} (f : α → α) {before : List α}
    (hbefore : ∀ y ∈ before, test y = false) (hx : test x = true) (after : List α) :
    replaceFirst test f (before ++ x :: after) = before ++ f x :: after := by
  induction before with
  | nil => simp [replaceFirst, hx]
  | cons y before ih =>
    obtain ⟨hy, hrest⟩ := List.forall_mem_cons.mp hbefore
    simp [replaceFirst, hy, ih hrest]

theorem Query.forall_mem_replaceFirst {test : α → Bool} {f : α → α} (hxs : ∀ y ∈ xs, P y)
    (hf : ∀ y, P y → P (f y)) : ∀ y ∈ replaceFirst test f xs, P y := by
  induction xs with
  | nil => simp [replaceFirst]
  | cons x xs ih =>
    obtain ⟨hx, hxs⟩ := List.forall_mem_cons.mp hxs
    unfold replaceFirst
    split
    · exact List.forall_mem_cons.mpr ⟨hf x hx, hxs⟩
    · exact List.forall_mem_cons.mpr ⟨hx, ih hxs⟩

end Steps

namespace Query

/-- One change of a query: of one of its clauses, or by one step of the short notation. -/
inductive Edit where
  | addColumn (column : Item .select)
  | replaceColumn (old : Expr) (column : Item .select)
  | removeColumns (columns : Option (List Expr))
  | addSource (table : TableDef)
  /-- Join a table.  The join may be given more conditions before it gets into the query. -/
  | addJoin (table : TableDef) (kind : JoinKind) (on? : Option (Item .filter))
    (more : List (Option (Item .filter)))
  | augmentJoin (table : String) (condition : Option (Item .filter))
  | addFilter (condition : Option (Item .filter))
  | addGroup (target : Item .group)
  | addHaving (condition : Item .having)
  | addOrder (target : Item .order) (direction : Direction)
  | setLimit (limit : Limit)
  | selectColumn (column : ColumnSpec)
  | selectColumns (table : String) (columns : List ColumnSpec)
  | reselectColumn (old : Expr) (column : ColumnSpec)
  | source (table : String) (label : Option String)
  | join (kind : JoinKind) (table : String) (label : Option String) (conditions : List Expr)
  | joinOn (table : String) (conditions : List Expr)
  | filter (condition : Expr)
  | filterMember (column : String) (values : List Value)
  | groupBy (spec : String)
  | groupByAll (specs : List String)
  | orderBy (spec : String) (direction : Direction)
  | orderByAll (specs : List (String × Direction))
  | limitTo (number offset : Option UInt64)

namespace Edit

/-- A join and the conditions that are added to it one after the other. -/
def joining (table : TableDef) (kind : JoinKind) (on? : Option (Item .filter))
    (more : List (Option (Item .filter))) : Join :=
  more.foldl (fun j condition ↦ j.augment (condition.map Item.expr)) (.ofTable table kind on?)

/-- The query after an edit, or why the edit is refused. -/
def apply (q : Query) : Edit → Except Error Query
  | .addColumn column => .ok (q.addColumn column)
  | .replaceColumn old column => .ok (q.replaceColumn old column)
  | .removeColumns columns => .ok (q.removeColumns columns)
  | .addSource table => .ok (q.addSource table)
  | .addJoin table kind on? more => .ok (q.addJoin (joining table kind on? more))
  | .augmentJoin table condition => .ok (q.augmentJoin table condition)
  | .addFilter condition => .ok (q.addFilter condition)
  | .addGroup target => .ok (q.addGroup target)
  | .addHaving condition => .ok (q.addHaving condition)
  | .addOrder target direction => .ok (q.addOrder (.ofItem target direction))
  | .setLimit limit => .ok (q.setLimit limit)
  | .selectColumn column => q.selectColumn column
  | .selectColumns table columns => q.selectColumns table columns
  | .reselectColumn old column => q.reselectColumn old column
  | .source table label => .ok (q.source table label)
  | .join kind table label conditions => q.join kind table label conditions
  | .joinOn table conditions => q.joinOn table conditions
  | .filter condition => q.filter condition
  | .filterMember column values => q.filterMember column values
  | .groupBy spec => q.groupBy spec
  | .groupByAll specs => q.groupByAll specs
  | .orderBy spec direction => q.orderBy spec direction
  | .orderByAll specs => q.orderByAll specs
  | .limitTo number offset => .ok (q.limitTo number offset)

/-- The expressions that an edit puts into the query as they are. -/
def exprs : Edit → List Expr
  | .addColumn column | .replaceColumn _ column => [column.expr]
  | .addJoin _ _ on? more => (on? :: more).filterMap (Option.map Item.expr)
  | .augmentJoin _ condition | .addFilter condition => (condition.map Item.expr).toList
  | .addGroup target => [target.expr]
  | .addHaving condition => [condition.expr]
  | .addOrder target _ => [target.expr]
  | .join _ _ _ conditions | .joinOn _ conditions => conditions
  | .filter condition => [condition]
  | _ => []

end Edit

/-- Every expression that stands in a clause has what is asked there, where the condition of a join
counts as a filter.  There is one limit at most. -/
structure Each (P : Clause → Expr → Prop) (q : Query) : Prop where
  select : ∀ e ∈ q.select, P .select e
  joins : ∀ j ∈ q.joins, ∀ e ∈ j.on?, P .filter e
  filters : ∀ f ∈ q.filters, ∀ e ∈ f, P .filter e
  groups : ∀ e ∈ q.groups, P .group e
  havings : ∀ e ∈ q.havings, P .having e
  orders : ∀ o ∈ q.orders, P .order o.target
  limits : q.limits.length ≤ 1

namespace Each

variable {P P' : Clause → Expr → Prop} {q : Query}

theorem empty : Each P .empty := by
  constructor <;> simp [Query.empty]

theorem mono (h : q.Each P) (hP : ∀ c e, P c e → P' c e) : q.Each P' where
  select e he := hP _ e (h.select e he)
  joins j hj e he := hP _ e (h.joins j hj e he)
  filters f hf e he := hP _ e (h.filters f hf e he)
  groups e he := hP _ e (h.groups e he)
  havings e he := hP _ e (h.havings e he)
  orders o ho := hP _ _ (h.orders o ho)
  limits := h.limits

theorem exists_of_mem_parts (h : q.Each P) {e : Expr} (he : e ∈ q.parts) : ∃ c, P c e := by
  simp only [Query.parts, List.mem_append, List.mem_filterMap, List.mem_map, id_eq] at he
  rcases he with ((((he | ⟨j, hj, he⟩) | ⟨f, hf, he⟩) | he) | he) | ⟨o, ho, rfl⟩
  · exact ⟨_, h.select e he⟩
  · exact ⟨_, h.joins j hj e he⟩
  · exact ⟨_, h.filters f hf e he⟩
  · exact ⟨_, h.groups e he⟩
  · exact ⟨_, h.havings e he⟩
  · exact ⟨_, h.orders o ho⟩

/-! ## What the functions on one clause keep -/

theorem addColumn (h : q.Each P) {column : Item .select} (hcolumn : P .select column.expr) :
    (q.addColumn column).Each P :=
  { h with select := Clause.forall_mem_push .select h.select hcolumn }

theorem replaceColumn (h : q.Each P) (old : Expr) {column : Item .select}
    (hcolumn : P .select column.expr) : (q.replaceColumn old column).Each P :=
  { h with select := forall_mem_replaceFirst h.select fun _ _ ↦ hcolumn }

theorem removeColumns (h : q.Each P) (columns : Option (List Expr)) :
    (q.removeColumns columns).Each P := by
  cases columns with
  | none => exact { h with select := by simp [Query.removeColumns] }
  | some columns =>
    refine { h with select := fun e he ↦ h.select e ?_ }
    exact (List.mem_filter.mp (Clause.mem_of_mem_keep .select he)).1

theorem addSource (h : q.Each P) (table : TableDef) : (q.addSource table).Each P :=
  { h with }

theorem addJoin (h : q.Each P) {join : Join} (hjoin : ∀ e ∈ join.on?, P .filter e) :
    (q.addJoin join).Each P :=
  { h with joins := Clause.forall_mem_push .join h.joins hjoin }

theorem addFilter (h : q.Each P) {condition : Option (Item .filter)}
    (hcondition : ∀ item ∈ condition, P .filter item.expr) : (q.addFilter condition).Each P := by
  refine { h with filters := Clause.forall_mem_push .filter h.filters ?_ }
  intro e he
  obtain ⟨item, hitem, rfl⟩ := Option.map_eq_some_iff.mp he
  exact hcondition item hitem

theorem addGroup (h : q.Each P) {target : Item .group} (htarget : P .group target.expr) :
    (q.addGroup target).Each P :=
  { h with groups := Clause.forall_mem_push .group h.groups htarget }

theorem addHaving (h : q.Each P) {condition : Item .having}
    (hcondition : P .having condition.expr) : (q.addHaving condition).Each P :=
  { h with havings := Clause.forall_mem_push .having h.havings hcondition }

theorem addOrder (h : q.Each P) {order : Order} (horder : P .order order.target) :
    (q.addOrder order).Each P :=
  { h with orders := Clause.forall_mem_push .order h.orders horder }

theorem setLimit (h : q.Each P) (limit : Limit) : (q.setLimit limit).Each P :=
  { h with limits := Nat.le_refl 1 }

section Joins

variable (hboth : ∀ {e e'}, P .filter e → P .filter e' →
  P .filter (.condition (.combining .conjunction [e, e'])))

include hboth

/-- A join that gets one more condition has none, one of the two, or their conjunction. -/
theorem augment {j : Join} {more : Option (Item .filter)} (hj : ∀ e ∈ j.on?, P .filter e)
    (hmore : ∀ item ∈ more, P .filter item.expr) :
    ∀ e ∈ (j.augment (more.map Item.expr)).on?, P .filter e := by
  obtain ⟨table, kind, _ | current⟩ := j <;> cases more with
  | none => exact hj
  | some extra =>
    have hextra : P .filter extra.expr := hmore extra rfl
    simp_all [Join.augment]

theorem joining {table : TableDef} {kind : JoinKind} {on? : Option (Item .filter)}
    {more : List (Option (Item .filter))}
    (hall : ∀ condition ∈ on? :: more, ∀ item ∈ condition, P .filter item.expr) :
    ∀ e ∈ (Edit.joining table kind on? more).on?, P .filter e := by
  obtain ⟨hon, hmore⟩ := List.forall_mem_cons.mp hall
  have hfirst : ∀ e ∈ (Join.ofTable table kind on?).on?, P .filter e := by
    intro e he
    obtain ⟨item, hitem, rfl⟩ := Option.map_eq_some_iff.mp he
    exact hon item hitem
  clear hall hon
  unfold Edit.joining
  generalize Join.ofTable table kind on? = j at hfirst
  induction more generalizing j with
  | nil => exact hfirst
  | cons condition more ih =>
    obtain ⟨hcondition, hrest⟩ := List.forall_mem_cons.mp hmore
    exact ih hrest _ (augment hboth hfirst hcondition)

theorem augmentJoin (h : q.Each P) (table : String) {condition : Option (Item .filter)}
    (hcondition : ∀ item ∈ condition, P .filter item.expr) :
    (q.augmentJoin table condition).Each P :=
  { h with joins := forall_mem_replaceFirst h.joins fun _ hj ↦ augment hboth hj hcondition }

end Joins

end Each
end Query
end ScopedSelect
