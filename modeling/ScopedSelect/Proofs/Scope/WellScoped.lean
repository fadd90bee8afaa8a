import ScopedSelect.Proofs.Render.Clauses
import ScopedSelect.Tree.Basic

/-!
# Well-scoped trees

Whether the names in a tree are used properly is a matter of the tree and of the names that are
visible at each level of nesting.  The rules are stated here without any rendering: how many visible
tables or columns may go by a name, one rule for each kind of name, and a judgement over the tree
that goes into nested queries with the scope of their own level.
-/

namespace ScopedSelect

/-- No two members of a list have the property. -/
def AtMostOne {α : Type} (P : α → Prop) (xs : List α) : Prop :=
  xs.Pairwise fun x y ↦ ¬(P x ∧ P y)

/-- One member of a list has the property, and no other has. -/
def ExactlyOne {α : Type} (P : α → Prop) (xs : List α) : Prop :=
  AtMostOne P xs ∧ ∃ x ∈ xs, P x

def TableSymbol.Answers (t : TableSymbol) (reference : String) : Prop :=
  t.alias? = some reference ∨ t.name = reference

def ColumnSymbol.Bears (c : ColumnSymbol) (name : String) : Prop :=
  c.alias? = some name ∨ c.name? = some name

section Decisions

variable {α : Type} (P : α → Prop) [DecidablePred P] (xs : List α)

instance : Decidable (AtMostOne P xs) :=
  inferInstanceAs (Decidable (xs.Pairwise fun x y ↦ ¬(P x ∧ P y)))

instance : Decidable (ExactlyOne P xs) :=
  inferInstanceAs (Decidable (AtMostOne P xs ∧ ∃ x ∈ xs, P x))

instance (t : TableSymbol) (reference : String) : Decidable (t.Answers reference) :=
  inferInstanceAs (Decidable (t.alias? = some reference ∨ t.name = reference))

instance (c : ColumnSymbol) (name : String) : Decidable (c.Bears name) :=
  inferInstanceAs (Decidable (c.alias? = some name ∨ c.name? = some name))

end Decisions

/-- No two visible tables show the name of the table. -/
def TableDef.WellScoped (s : Scope) (t : TableDef) : Prop :=
  AtMostOne (·.displayName = t.displayName) s.tables

/-- No two visible tables answer to the reference. -/
def TableRef.WellScoped (s : Scope) (r : TableRef) : Prop :=
  AtMostOne (·.Answers r.name) s.tables

/-- The table written before the column is no riddle, and no two visible columns show the name of
the column or, if no table is written, have its bare name. -/
structure ColumnDef.WellScoped (s : Scope) (c : ColumnDef) : Prop where
  table : ∀ t ∈ c.table?, t.WellScoped s
  column : AtMostOne
    (fun x ↦ x.displayName? = some c.displayName ∨ c.table? = none ∧ x.name? = some c.name)
    s.columns

/-- The visible columns that go by a name were written with one table at most. -/
def Scope.OneTable (s : Scope) (name : String) : Prop :=
  ∀ c ∈ s.columns, ∀ c' ∈ s.columns, c.Bears name → c'.Bears name →
    ∀ t ∈ c.table?, ∀ t' ∈ c'.table?, t = t'

/-- A reference is proper in one of three ways. -/
inductive ColumnRef.WellScoped (s : Scope) : ColumnRef → Prop where
  /-- A table is written, one visible table answers to it, and the alias is no riddle. -/
  | qualified {name table : String} (answers : ExactlyOne (·.Answers table) s.tables)
      (column : AtMostOne (·.alias? = some name) s.columns) : WellScoped s ⟨name, some ⟨table⟩⟩
  /-- No table is written and one visible column at most is meant.  If it is meant by its bare name
  alone, the table written with it is visible. -/
  | inherited {name : String} (oneTable : s.OneTable name)
      (column : AtMostOne (·.Bears name) s.columns)
      (visible : ∀ c ∈ s.columns, c.Bears name → c.alias? ≠ some name →
        ∀ table ∈ c.table?, ∃ t ∈ s.tables, t.Answers table) : WellScoped s ⟨name, none⟩
  /-- No table is written, the columns that may be meant were written with several, and the only
  FROM table decides. -/
  | source {name : String} {only : TableSymbol} (severalTables : ¬ s.OneTable name)
      (sources : s.sources = [only]) (answers : ExactlyOne (·.Answers only.displayName) s.tables)
      (column : AtMostOne (·.alias? = some name) s.columns) : WellScoped s ⟨name, none⟩

mutual

/-- The names in an expression are used properly in a scope. -/
inductive Expr.WellScoped : Scope → Expr → Prop where
  | tableDef {s : Scope} {t : TableDef} (h : t.WellScoped s) : Expr.WellScoped s (.tableDef t)
  | tableRef {s : Scope} {t : TableRef} (h : t.WellScoped s) : Expr.WellScoped s (.tableRef t)
  | columnDef {s : Scope} {c : ColumnDef} (h : c.WellScoped s) : Expr.WellScoped s (.columnDef c)
  | columnRef {s : Scope} {c : ColumnRef} (h : c.WellScoped s) : Expr.WellScoped s (.columnRef c)
  | position {s : Scope} (p : ColumnPosition) : Expr.WellScoped s (.position p)
  | fragment {s : Scope} (f : Fragment) : Expr.WellScoped s (.fragment f)
  | literal {s : Scope} (v : Value) : Expr.WellScoped s (.literal v)
  | decorated {s : Scope} {e : Expr} (t : Transform) (h : Expr.WellScoped s e) :
    Expr.WellScoped s (.decorated e t)
  | nothing {s : Scope} : Expr.WellScoped s .nothing
  | condition {s : Scope} {c : Condition} (h : ∀ e ∈ c.operands, Expr.WellScoped s e) :
    Expr.WellScoped s (.condition c)
  | subquery {s : Scope} {q : Query} (h : Query.WellScoped s q) : Expr.WellScoped s (.subquery q)

/-- The names in a query are used properly at its own level: its FROM tables before the inherited
tables and the joined ones after them, its selected columns after the inherited ones.  A query with
a condition on groups has no text at all. -/
inductive Query.WellScoped : Scope → Query → Prop where
  | intro {s : Scope} {q : Query} (havings : q.havings = [])
      (tables : ∀ t ∈ q.tables, t.WellScoped (q.scopeIn s))
      (parts : ∀ e ∈ q.parts, Expr.WellScoped (q.scopeIn s) e) : Query.WellScoped s q

end

namespace Expr

/-! The rules read backwards. -/

variable {s : Scope}

theorem wellScoped_tableDef_iff {t : TableDef} : (tableDef t).WellScoped s ↔ t.WellScoped s :=
  ⟨fun | .tableDef h => h, .tableDef⟩

theorem wellScoped_tableRef_iff {r : TableRef} : (tableRef r).WellScoped s ↔ r.WellScoped s :=
  ⟨fun | .tableRef h => h, .tableRef⟩

theorem wellScoped_columnDef_iff {c : ColumnDef} : (columnDef c).WellScoped s ↔ c.WellScoped s :=
  ⟨fun | .columnDef h => h, .columnDef⟩

theorem wellScoped_columnRef_iff {r : ColumnRef} : (columnRef r).WellScoped s ↔ r.WellScoped s :=
  ⟨fun | .columnRef h => h, .columnRef⟩

theorem wellScoped_decorated_iff {e : Expr} {t : Transform} :
    (decorated e t).WellScoped s ↔ e.WellScoped s :=
  ⟨fun | .decorated _ h => h, .decorated t⟩

theorem wellScoped_condition_iff {c : Condition} :
    (condition c).WellScoped s ↔ ∀ e ∈ c.operands, e.WellScoped s :=
  ⟨fun | .condition h => h, .condition⟩

theorem wellScoped_subquery_iff {q : Query} : (subquery q).WellScoped s ↔ q.WellScoped s :=
  ⟨fun | .subquery h => h, .subquery⟩

end Expr

section Counting

variable {α : Type} {xs : List α}

theorem countP_le_one_iff {p : α → Bool} :
    xs.countP p ≤ 1 ↔ AtMostOne (fun x ↦ p x = true) xs := by
  induction xs with
  | nil => simp [AtMostOne]
  | cons x xs ih =>
    rw [AtMostOne, List.pairwise_cons, ← AtMostOne, ← ih]
    cases hx : p x with
    | false => simp [hx]
    | true =>
      have hcons : (x :: xs).countP p = xs.countP p + 1 := by simp [hx]
      have hzero : xs.countP p = 0 ↔ ∀ y ∈ xs, ¬p y = true := List.countP_eq_zero
      simp only [hcons, true_and]
      rw [← hzero]
      omega

variable {P Q : α → Prop}

theorem atMostOne_of_forall_not (h : ∀ x ∈ xs, ¬P x) : AtMostOne P xs :=
  List.pairwise_of_forall_mem_list fun x hx _ _ hP ↦ h x hx hP.1

theorem AtMostOne.congr (h : ∀ x, P x ↔ Q x) : AtMostOne P xs ↔ AtMostOne Q xs := by
  simp only [AtMostOne, h]

theorem AtMostOne.eq_of_mem (h : AtMostOne P xs) {x y : α} (hx : x ∈ xs) (hy : y ∈ xs)
    (hPx : P x) (hPy : P y) : x = y := by
  induction xs with
  | nil => exact absurd hx List.not_mem_nil
  | cons z zs ih =>
    obtain ⟨hz, hzs⟩ := List.pairwise_cons.mp h
    rcases List.mem_cons.mp hx with rfl | hxs <;> rcases List.mem_cons.mp hy with rfl | hys
    · rfl
    · exact absurd ⟨hPx, hPy⟩ (hz y hys)
    · exact absurd ⟨hPy, hPx⟩ (hz x hxs)
    · exact ih hzs hxs hys

end Counting
end ScopedSelect
