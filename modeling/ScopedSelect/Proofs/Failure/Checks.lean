import ScopedSelect.Proofs.Render.Composition
import ScopedSelect.Proofs.Scope.Names

/-!
# The checks of a tree in their order

Every name in a tree is checked by a few rules, each of which compares it with what is visible and
says what goes wrong.  `Query.checks` reads off the tree of a query which rules apply in which
scope: those of the selected columns, then of the FROM tables, of the joins (the table before its
condition), of the filters, of the groups, of HAVING and of the orders, each from left to right.  A
nested query is checked in its place and in the scope of its own level.
-/

namespace ScopedSelect

/-- A rule that a name has to obey. -/
inductive Rule where
  /-- No two visible tables show the name of the table. -/
  | tableDef (t : TableDef)
  /-- No two visible tables answer to the reference. -/
  | tableRef (r : TableRef)
  /-- No two visible columns clash with the definition. -/
  | columnDef (c : ColumnDef)
  /-- A table is written with the reference, FROM has one table, or the columns that may be meant
  were written with one table at most. -/
  | oneTable (r : ColumnRef)
  /-- No two visible columns compete for the name; with a known table only aliases do. -/
  | oneColumn (r : ColumnRef) (qualified : Bool)
  /-- A visible table answers to what stands before the reference. -/
  | visible (r : ColumnRef) (table : TableRef)
  /-- There are no conditions on groups. -/
  | having

/-- What goes wrong if something that must be unique is there several times. -/
def tooMany (count : Nat) (failure : Nat → RenderError) : Option RenderError :=
  if 1 < count then some (failure count) else none

/-- How a rule is broken in a scope, if it is. -/
def Rule.failure? (s : Scope) : Rule → Option RenderError
  | .tableDef t =>
    tooMany (s.tables.countP (·.displayName == t.displayName)) (.ambiguousDefinition t.displayName)
  | .tableRef r => tooMany (s.tables.countP (·.answersTo r.name)) (.ambiguousReference r.name)
  | .columnDef c => tooMany (s.columns.countP c.clashesWith) (.ambiguousDefinition c.displayName)
  | .oneTable r =>
    if r.table?.isSome || s.sources.length == 1 then none
    else tooMany (r.writtenTables s).length (.ambiguousReference r.name)
  | .oneColumn r qualified =>
    tooMany (s.columns.countP (r.competes qualified)) (.ambiguousReference r.name)
  | .visible r table =>
    if s.tables.any (·.answersTo table.name) then none
    else some (.unresolvedTable r.name table.name)
  | .having => some (.notImplemented "HAVING clause rendering")

theorem Rule.failure?_ne_invalidArgument (s : Scope) (rule : Rule) (cause : ArgumentError) :
    rule.failure? s ≠ some (.invalidArgument cause) := by
  have htooMany (count : Nat) (failure : Nat → RenderError)
      (h : failure count ≠ .invalidArgument cause) :
      tooMany count failure ≠ some (.invalidArgument cause) := by
    unfold tooMany
    split
    · simpa using h
    · simp
  cases rule with
  | tableDef t => exact htooMany _ _ (by simp)
  | tableRef r => exact htooMany _ _ (by simp)
  | columnDef c => exact htooMany _ _ (by simp)
  | oneTable r =>
    simp only [failure?]
    split
    · simp
    · exact htooMany _ _ (by simp)
  | oneColumn r qualified => exact htooMany _ _ (by simp)
  | visible r table =>
    simp only [failure?]
    split <;> simp
  | having => simp [failure?]

/-- The table before a column is checked first, then the name of the column. -/
def ColumnDef.rules (c : ColumnDef) : List Rule :=
  c.table?.toList.map .tableRef ++ [.columnDef c]

/-- The table that is known before the columns are looked at: the one that is written, or the FROM
table if the columns that may be meant were written with several. -/
def ColumnRef.known? (r : ColumnRef) (s : Scope) : Option TableRef :=
  match r.table? with
  | some table => some table
  | none =>
    if 1 < (r.writtenTables s).length then s.sources.head?.map fun t ↦ ⟨t.displayName⟩ else none

/-- A reference is checked for the table it is meant with, for the name of the column and, last, for
the table that is printed before it. -/
def ColumnRef.rules (s : Scope) (r : ColumnRef) : List Rule :=
  let known := r.known? s
  .oneTable r :: (known.toList.map .tableRef ++ .oneColumn r known.isSome ::
    (known.or (r.inherited? s)).toList.map (.visible r))

structure Check where
  scope : Scope
  rule : Rule

def Check.failure? (c : Check) : Option RenderError :=
  c.rule.failure? c.scope

mutual

def Expr.checks (s : Scope) : Expr → List Check
  | .tableDef t => [⟨s, .tableDef t⟩]
  | .tableRef r => [⟨s, .tableRef r⟩]
  | .columnDef c => c.rules.map (Check.mk s)
  | .columnRef r => (r.rules s).map (Check.mk s)
  | .decorated inner _ => inner.checks s
  | .condition c => c.checks s
  | .subquery q => q.checks s
  | _ => []

def Condition.checks (s : Scope) : Condition → List Check
  | ⟨operands, _⟩ => checksOfAll s operands

def Join.checks (s : Scope) : Join → List Check
  | ⟨table, _, on⟩ => ⟨s, .tableDef table⟩ :: checksOfFilter s on

def Order.checks (s : Scope) : Order → List Check
  | ⟨target, _⟩ => target.checks s

/-- The checks of a query that stands in a scope, made at a level of its own. -/
def Query.checks (s : Scope) : Query → List Check
  | ⟨select, sources, joins, filters, groups, havings, orders, limits⟩ =>
    let own := Query.scopeIn ⟨select, sources, joins, filters, groups, havings, orders, limits⟩ s
    checksOfAll own select ++ sources.map (fun t ↦ ⟨own, .tableDef t⟩) ++ checksOfJoins own joins
      ++ checksOfFilters own filters ++ checksOfAll own groups
      ++ havings.map (fun _ ↦ ⟨own, .having⟩) ++ checksOfOrders own orders

def checksOfAll (s : Scope) : List Expr → List Check
  | [] => []
  | e :: es => e.checks s ++ checksOfAll s es

def checksOfFilter (s : Scope) : Option Expr → List Check
  | none => []
  | some e => e.checks s

def checksOfFilters (s : Scope) : List (Option Expr) → List Check
  | [] => []
  | e :: es => checksOfFilter s e ++ checksOfFilters s es

def checksOfJoins (s : Scope) : List Join → List Check
  | [] => []
  | j :: js => j.checks s ++ checksOfJoins s js

def checksOfOrders (s : Scope) : List Order → List Check
  | [] => []
  | o :: os => o.checks s ++ checksOfOrders s os

end

section Walks

variable (s : Scope)

/-! The walks through one clause each. -/

theorem checksOfAll_eq (es : List Expr) : checksOfAll s es = es.flatMap (Expr.checks s) := by
  induction es with
  | nil => simp [checksOfAll]
  | cons e es ih => simp [checksOfAll, ih]

theorem checksOfFilters_eq (es : List (Option Expr)) :
    checksOfFilters s es = es.flatMap (checksOfFilter s) := by
  induction es with
  | nil => simp [checksOfFilters]
  | cons e es ih => simp [checksOfFilters, ih]

theorem checksOfJoins_eq (js : List Join) :
    checksOfJoins s js = js.flatMap (Join.checks s) := by
  induction js with
  | nil => simp [checksOfJoins]
  | cons j js ih => simp [checksOfJoins, ih]

theorem checksOfOrders_eq (os : List Order) :
    checksOfOrders s os = os.flatMap (Order.checks s) := by
  induction os with
  | nil => simp [checksOfOrders]
  | cons o os ih => simp [checksOfOrders, ih]

end Walks

def Entity.checks (s : Scope) : (c : Clause) → Entity c → List Check
  | .select, e => Expr.checks s e
  | .source, t => [⟨s, .tableDef t⟩]
  | .join, j => Join.checks s j
  | .filter, e => checksOfFilter s e
  | .group, e => Expr.checks s e
  | .having, _ => [⟨s, .having⟩]
  | .order, o => Order.checks s o
  | .limit, _ => []

/-- A query is checked clause by clause in the scope of its own level. -/
theorem Query.checks_eq (q : Query) (s : Scope) :
    q.checks s =
      Clause.all.flatMap fun c ↦ (q.entities c).flatMap (Entity.checks (q.scopeIn s) c) := by
  obtain ⟨select, sources, joins, filters, groups, havings, orders, limits⟩ := q
  rw [checks, checksOfAll_eq, checksOfAll_eq, checksOfJoins_eq, checksOfFilters_eq,
    checksOfOrders_eq]
  have hlimits (own : Scope) : limits.flatMap (Entity.checks own .limit) = [] :=
    List.flatMap_eq_nil_iff.mpr fun _ _ ↦ rfl
  simp only [Clause.all, List.flatMap_cons, List.flatMap_nil, entities, List.append_nil,
    List.map_eq_flatMap, List.append_assoc, hlimits]
  rfl

/-- What is checked of an entity is each of its tables and what is checked of its parts. -/
theorem Entity.checks_eq {s : Scope} {c : Clause} {x : Entity c} (hc : c ≠ .having) :
    checks s c x =
      (tables c x).flatMap (checks s .source) ++ (parts c x).flatMap (Expr.checks s) := by
  have hfilter (e : Option Expr) : checksOfFilter s e = e.toList.flatMap (Expr.checks s) := by
    cases e <;> simp [checksOfFilter]
  cases c with
  | having => exact absurd rfl hc
  | join =>
    obtain ⟨table, kind, on⟩ := x
    simp [checks, Join.checks, tables, parts, hfilter]
  | filter => simp [checks, tables, parts, hfilter]
  | order =>
    obtain ⟨target, direction⟩ := x
    simp [checks, Order.checks, tables, parts]
  | _ => simp [checks, tables, parts]

theorem Expr.checks_decorated (s : Scope) (inner : Expr) (t : Transform) :
    (decorated inner t).checks s = inner.checks s := by
  rw [checks]

theorem Expr.checks_condition (s : Scope) (c : Condition) :
    (condition c).checks s = c.operands.flatMap (checks s) := by
  obtain ⟨operands, folding⟩ := c
  rw [checks, Condition.checks, checksOfAll_eq]

theorem Expr.checks_subquery (s : Scope) (q : Query) : (subquery q).checks s = q.checks s := by
  rw [checks]

/-- The checks of a tree, listed as the tree is rendered. -/
def Walk.checks : Walk Check where
  expr := Expr.checks
  entity := Entity.checks
  query s q := q.checks s
  expr_decorated _ := Expr.checks_decorated _ _ _
  expr_condition := Expr.checks_condition
  expr_subquery := Expr.checks_subquery
  entity_eq := Entity.checks_eq
  query_eq s q := q.checks_eq s

section Failures

theorem findSome?_cons_eq_or {α β : Type} {f : α → Option β} {x : α} {xs : List α} :
    (x :: xs).findSome? f = (f x).or (xs.findSome? f) := by
  rw [List.findSome?_cons]
  cases f x <;> rfl

/-- The error with which something ended, if it did. -/
def errorOf? {ε α : Type} : Except ε α → Option ε
  | .ok _ => none
  | .error e => some e

@[simp] theorem errorOf?_pure {ε α : Type} (a : α) : errorOf? (pure a : Except ε α) = none := rfl

theorem errorOf?_check_bind {ε β : Type} {check : Except ε Unit} {f : Unit → Except ε β} :
    errorOf? (check >>= f) = (errorOf? check).or (errorOf? (f ())) := by
  cases check <;> simp [bind, Except.bind, errorOf?]

theorem errorOf?_atMostOne {count : Nat} {failure : Nat → RenderError} :
    errorOf? (atMostOne count failure) = tooMany count failure := by
  unfold atMostOne tooMany
  split <;> rfl

end Failures

section Names

variable {s : Scope}

theorem TableDef.errorOf?_text (t : TableDef) :
    errorOf? (t.text s) = (Rule.tableDef t).failure? s := by
  rw [text, errorOf?_check_bind, errorOf?_atMostOne]
  exact Option.or_none

theorem TableRef.errorOf?_check (r : TableRef) :
    errorOf? (r.check s) = (Rule.tableRef r).failure? s :=
  errorOf?_atMostOne

theorem TableRef.errorOf?_text (r : TableRef) :
    errorOf? (r.text s) = (Rule.tableRef r).failure? s := by
  rw [text, errorOf?_check_bind, errorOf?_check]
  exact Option.or_none

theorem errorOf?_checkQualifier (qualifier : Option TableRef) :
    errorOf? (checkQualifier qualifier s) =
      (qualifier.toList.map Rule.tableRef).findSome? (Rule.failure? s) := by
  cases qualifier with
  | none => rfl
  | some table => simp [checkQualifier, TableRef.errorOf?_check]

theorem ColumnDef.errorOf?_text (c : ColumnDef) :
    errorOf? (c.text s) = c.rules.findSome? (Rule.failure? s) := by
  calc
    _ = (errorOf? (checkQualifier c.table? s)).or
        ((errorOf? (atMostOne (s.columns.countP c.clashesWith)
          (.ambiguousDefinition c.displayName))).or none) := by
      rw [text, errorOf?_check_bind, errorOf?_check_bind]
      rfl
    _ = ((c.table?.toList.map Rule.tableRef).findSome? (Rule.failure? s)).or
        ((Rule.columnDef c).failure? s) := by
      rw [errorOf?_checkQualifier, errorOf?_atMostOne, Option.or_none]
      rfl
    _ = c.rules.findSome? (Rule.failure? s) := by
      rw [rules, List.findSome?_append]
      simp

namespace ColumnRef

variable {r : ColumnRef}

theorem errorOf?_qualifiedText (table : TableRef) :
    errorOf? (r.qualifiedText table s) = (Rule.visible r table).failure? s := by
  have hfound : s.tables.any (·.answersTo table.name) = (s.findTable? table.name).isSome :=
    (List.isSome_find? ..).symm
  rw [Rule.failure?, hfound, qualifiedText]
  cases s.findTable? table.name <;> rfl

theorem resolve_eq (r : ColumnRef) (s : Scope) :
    r.resolve s = match (Rule.oneTable r).failure? s with
      | some e => .error e
      | none => .ok (r.known? s) := by
  obtain ⟨name, _ | table⟩ := r
  · by_cases hseveral : 1 < (writtenTables ⟨name, none⟩ s).length
    · have hnot : ¬(writtenTables ⟨name, none⟩ s).length ≤ 1 := by omega
      simp only [resolve, hnot, known?, hseveral, Rule.failure?, tooMany, ↓reduceIte]
      rcases s.sources with _ | ⟨only, _ | ⟨second, rest⟩⟩ <;> simp
    · have hnot : (writtenTables ⟨name, none⟩ s).length ≤ 1 := by omega
      simp [resolve, hnot, known?, hseveral, Rule.failure?, tooMany]
  · rfl

theorem errorOf?_text (r : ColumnRef) :
    errorOf? (r.text s) = (r.rules s).findSome? (Rule.failure? s) := by
  rw [text, resolve_eq, rules, findSome?_cons_eq_or]
  cases hone : (Rule.oneTable r).failure? s with
  | some e => rfl
  | none =>
    change errorOf? (checkQualifier (r.known? s) s >>= fun _ ↦ _ >>= fun _ ↦ _) = _
    rw [errorOf?_check_bind, errorOf?_check_bind, errorOf?_checkQualifier, errorOf?_atMostOne]
    rw [Option.none_or, List.findSome?_append, findSome?_cons_eq_or]
    cases (r.known? s).or (r.inherited? s) with
    | none => simp [Rule.failure?]
    | some table => simp [Rule.failure?, errorOf?_qualifiedText]

end ColumnRef

theorem findSome?_rules (rules : List Rule) :
    (rules.map (Check.mk s)).findSome? Check.failure? = rules.findSome? (Rule.failure? s) := by
  rw [List.findSome?_map]
  rfl

theorem Expr.errorOf?_leaf {e : Expr} {g : Scope → Except RenderError String}
    (hg : e.leaf? = some g) : errorOf? (g s) = (e.checks s).findSome? Check.failure? := by
  cases e with
  | tableDef t =>
    obtain rfl := Option.some.inj hg
    rw [t.errorOf?_text, checks, List.findSome?_singleton]
    rfl
  | tableRef r =>
    obtain rfl := Option.some.inj hg
    rw [r.errorOf?_text, checks, List.findSome?_singleton]
    rfl
  | columnDef c =>
    obtain rfl := Option.some.inj hg
    rw [c.errorOf?_text, checks, findSome?_rules]
  | columnRef r =>
    obtain rfl := Option.some.inj hg
    rw [r.errorOf?_text, checks, findSome?_rules]
  | position | fragment | literal | nothing =>
    obtain rfl := Option.some.inj hg
    simp [checks, errorOf?]
  | decorated | condition | subquery => simp [leaf?] at hg

end Names
end ScopedSelect
