import ScopedSelect.Proofs.Query.Targets

/-!
# Columns with their tables

A table and the name of its column are one text with a point between them.  The text is split again
at its last point, so that it gives back both of them as long as the name has no point, whatever
points the table has.  A mark at the beginning of the table would be read as one of the text.
Without one, every text is the column that it writes, to select as well as to refer to, and several
columns of a table are selected as they are (`qualified_readsBack`).
-/

namespace ScopedSelect
namespace Shorthand

variable {table name : String} {table? : Option String}

/-! ## The text of a column -/

/-- The text that writes a column: its name, after its table and a point if it has a table. -/
def written : Option String → String → String
  | some table, name => table ++ "." ++ name
  | none, name => name

theorem toList_written_some (table name : String) :
    (written (some table) name).toList = table.toList ++ '.' :: name.toList := by
  simp [written]

theorem splitAtLastPoint_of_notMem {cs : List Char} (h : '.' ∉ cs) :
    splitAtLastPoint cs = none := by
  induction cs with
  | nil => rfl
  | cons c cs ih =>
    rw [List.mem_cons, not_or] at h
    simp [splitAtLastPoint, ih h.2, Ne.symm h.1]

theorem splitAtLastPoint_append (before : List Char) {behind : List Char} (h : '.' ∉ behind) :
    splitAtLastPoint (before ++ '.' :: behind) = some (before, behind) := by
  induction before with
  | nil => simp [splitAtLastPoint, splitAtLastPoint_of_notMem h]
  | cons c before ih => simp [splitAtLastPoint, ih]

theorem exists_eq_append_point {cs : List Char} (h : '.' ∈ cs) :
    ∃ before behind, cs = before ++ '.' :: behind ∧ '.' ∉ behind := by
  obtain ⟨behind, before, hcs, hbehind⟩ :=
    List.eq_append_cons_of_mem (List.mem_reverse.mpr h)
  refine ⟨before.reverse, behind.reverse, ?_, by simpa using hbehind⟩
  rw [← List.reverse_reverse cs, hcs]
  simp

/-- A name without a point is what stands behind the last one, and is the whole text if there is no
table before it. -/
theorem splitQualified_written (h : '.' ∉ name.toList) :
    splitQualified (written table? name) = (table?, name) := by
  cases table? with
  | none => simp [splitQualified, written, splitAtLastPoint_of_notMem h]
  | some table =>
    rw [splitQualified, toList_written_some, splitAtLastPoint_append _ h]
    simp

theorem exists_written_eq (spec : String) :
    ∃ table? name, '.' ∉ name.toList ∧ written table? name = spec := by
  by_cases hpoint : '.' ∈ spec.toList
  · obtain ⟨before, behind, hspec, hbehind⟩ := exists_eq_append_point hpoint
    refine ⟨some (String.ofList before), String.ofList behind, by simpa using hbehind, ?_⟩
    apply String.toList_inj.mp
    rw [toList_written_some, hspec]
    simp
  · exact ⟨none, spec, hpoint, rfl⟩

theorem head?_written_some {mark : Char} (hmark : mark ≠ '.') (h : table.toList.head? ≠ some mark)
    (name : String) : (written (some table) name).toList.head? ≠ some mark := by
  rw [toList_written_some]
  cases hcs : table.toList with
  | nil => simpa using hmark.symm
  | cons c cs => simpa [hcs] using h

/-! ## Reading a column -/

theorem column_written (hname : '.' ∉ name.toList)
    (hmark : (written table? name).toList.head? ≠ some '=') :
    column (written table? name) = .columnDef ⟨name, table?.map TableRef.mk, none⟩ := by
  simp only [column, afterMark?_eq_none_iff.mpr hmark, splitQualified_written hname]

theorem reference_written (hname : '.' ∉ name.toList)
    (hmark : (written table? name).toList.head? ≠ some '=')
    (hvalue : (written table? name).toList.head? ≠ some '?') :
    reference (written table? name) = .columnRef ⟨name, table?.map TableRef.mk⟩ := by
  simp only [reference, afterMark?_eq_none_iff.mpr hmark, afterMark?_eq_none_iff.mpr hvalue,
    splitQualified_written hname]

theorem column_ofTable (hmark : table.toList.head? ≠ some '=') (hname : '.' ∉ name.toList) :
    column (table ++ "." ++ name) = .columnDef ⟨name, some ⟨table⟩, none⟩ := by
  have hread := column_written hname (head?_written_some (by decide) hmark name)
  exact hread

theorem reference_ofTable (hmark : table.toList.head? ≠ some '=')
    (hvalue : table.toList.head? ≠ some '?') (hname : '.' ∉ name.toList) :
    reference (table ++ "." ++ name) = .columnRef ⟨name, some ⟨table⟩⟩ := by
  have hread := reference_written hname (head?_written_some (by decide) hmark name)
    (head?_written_some (by decide) hvalue name)
  exact hread

theorem exists_column_eq {spec : String} (hmark : spec.toList.head? ≠ some '=') :
    ∃ table? name, column spec = .columnDef ⟨name, table?.map TableRef.mk, none⟩ ∧
      (spec.toList.head? ≠ some '?' →
        reference spec = .columnRef ⟨name, table?.map TableRef.mk⟩) ∧
      '.' ∉ name.toList ∧ written table? name = spec := by
  obtain ⟨table?, name, hname, rfl⟩ := exists_written_eq spec
  exact ⟨table?, name, column_written hname hmark, reference_written hname hmark, hname, rfl⟩

end Shorthand

/-! ## Selecting the columns of a table -/

/-- The column of a table: its definition under its alias, with what is done to it. -/
def ColumnSpec.definition (table : String) (c : ColumnSpec) : Expr :=
  let column : Expr := .columnDef ⟨c.spec, some ⟨table⟩, c.alias?⟩
  match c.transform? with
  | some t => .decorated column t
  | none => column

theorem ColumnSpec.expr_toItem_ofTable {table : String} {c : ColumnSpec}
    (hname : '.' ∉ c.spec.toList) (hmark : table.toList.head? ≠ some '=') :
    (c.ofTable table).toItem.map Item.expr = .ok (c.definition table) := by
  obtain ⟨name, label?, transform?⟩ := c
  simp only [ofTable, toItem, Shorthand.column_ofTable hmark hname]
  cases label? <;> cases transform? <;> rfl

namespace Query

def appendColumns (q : Query) (columns : List Expr) : Query :=
  { q with select := q.select ++ columns }

theorem selectColumn_appends (table : String) :
    AppendsBy (fun q (column : ColumnSpec) ↦ q.selectColumn (column.ofTable table))
      (fun column ↦ (column.ofTable table).toItem.map Item.expr) appendColumns where
  step_eq q column := by
    unfold selectColumn
    cases (column.ofTable table).toItem <;> rfl
  append_nil q := by
    cases q
    simp [appendColumns]
  append_append q e es := by simp [appendColumns]

theorem selectColumns_eq (q : Query) {table : String} {columns : List ColumnSpec}
    (hmark : table.toList.head? ≠ some '=') (hnames : ∀ c ∈ columns, '.' ∉ c.spec.toList) :
    q.selectColumns table columns =
      .ok { q with select := q.select ++ columns.map (ColumnSpec.definition table) } := by
  refine (selectColumn_appends table).foldlM_eq_ok_iff.mpr ⟨_, ?_, rfl⟩
  refine List.forall₂_map_right_iff.mpr (List.forall₂_same.mpr fun c hc ↦ ?_)
  exact ColumnSpec.expr_toItem_ofTable (hnames c hc) hmark

end Query

/-- A text without a mark is read as one column, to select and to refer to: the name has no point,
and writing the column gives the text.  The other way round, a name without a point is read back
with any table that has no mark before it.  So columns of a table are selected in their order, each
with its own alias and with what is done to it, and none is refused. -/
theorem qualified_readsBack :
    (∀ spec : String, spec.toList.head? ≠ some '=' →
      ∃ table? name, Shorthand.column spec = .columnDef ⟨name, table?.map TableRef.mk, none⟩ ∧
        (spec.toList.head? ≠ some '?' →
          Shorthand.reference spec = .columnRef ⟨name, table?.map TableRef.mk⟩) ∧
        '.' ∉ name.toList ∧ Shorthand.written table? name = spec) ∧
    (∀ table name : String, table.toList.head? ≠ some '=' → '.' ∉ name.toList →
      Shorthand.column (table ++ "." ++ name) = .columnDef ⟨name, some ⟨table⟩, none⟩ ∧
        (table.toList.head? ≠ some '?' →
          Shorthand.reference (table ++ "." ++ name) = .columnRef ⟨name, some ⟨table⟩⟩)) ∧
    (∀ (q : Query) (table : String) (names : List String), table.toList.head? ≠ some '=' →
      (∀ name ∈ names, '.' ∉ name.toList) →
      q.selectColumns table (names.map (⟨·, none, none⟩)) =
        .ok { q with
          select := q.select ++ names.map fun name ↦ .columnDef ⟨name, some ⟨table⟩, none⟩ }) ∧
    ∀ (q : Query) (table : String) (columns : List ColumnSpec), table.toList.head? ≠ some '=' →
      (∀ c ∈ columns, '.' ∉ c.spec.toList) →
      q.selectColumns table columns =
        .ok { q with select := q.select ++ columns.map (ColumnSpec.definition table) } := by
  refine ⟨fun spec ↦ Shorthand.exists_column_eq, fun table name hmark hname ↦ ⟨?_, fun hvalue ↦ ?_⟩,
    fun q table names hmark hnames ↦ ?_, fun q table columns ↦ q.selectColumns_eq⟩
  · exact Shorthand.column_ofTable hmark hname
  · exact Shorthand.reference_ofTable hmark hvalue hname
  · rw [q.selectColumns_eq hmark (List.forall_mem_map.mpr hnames), List.map_map]
    rfl

/-- A table with two points in its text, and a column of it without a name and one that is counted
under an alias, whose marks are none there. -/
theorem schemaColumns_readBack :
    let table := "shop..orders"
    let columns : List ColumnSpec := [
      ⟨"id", none, none⟩, ⟨"", some "=all", none⟩, ⟨"?state", some "n", some (.function .count)⟩]
    table.toList.head? ≠ some '=' ∧ table.toList.head? ≠ some '?' ∧
      (∀ c ∈ columns, '.' ∉ c.spec.toList) ∧
      Shorthand.reference "shop..orders.?state" = .columnRef ⟨"?state", some ⟨table⟩⟩ ∧
      Query.empty.selectColumns table columns =
        .ok { Query.empty with
          select := [
            .columnDef ⟨"id", some ⟨table⟩, none⟩,
            .columnDef ⟨"", some ⟨table⟩, some "=all"⟩,
            .decorated (.columnDef ⟨"?state", some ⟨table⟩, some "n"⟩) (.function .count)] } := by
  intro table columns
  have hmark : table.toList.head? ≠ some '=' := by decide
  have hvalue : table.toList.head? ≠ some '?' := by decide
  have hnames : ∀ c ∈ columns, '.' ∉ c.spec.toList := by decide
  obtain ⟨-, hread, -, hselect⟩ := qualified_readsBack
  exact ⟨hmark, hvalue, hnames, (hread table "?state" hmark (by decide)).2 hvalue,
    hselect Query.empty table columns hmark hnames⟩

end ScopedSelect
