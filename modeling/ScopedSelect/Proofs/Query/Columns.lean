import ScopedSelect.Proofs.Query.Edits
import ScopedSelect.Proofs.Tree.Reflexivity

/-!
# Replacing and removing columns

Columns are found by equality: replacing one changes the first that is equal, and removing some
keeps those that are equal to none of them.  As trees without a NaN equal themselves, a column that
was read from a query is found in it again (`columns_edited`).
-/

namespace ScopedSelect
namespace Query

variable {q : Query} {old : Expr}

/-- A query and the same query with `new` in the place of the first selected expression equal to
`old`. -/
def ReplacesFirst (q : Query) (old new : Expr) (q' : Query) : Prop :=
  ∃ before e after, q.select = before ++ e :: after ∧
    (∀ x ∈ before, (x == old) = false) ∧ (e == old) = true ∧
    q' = { q with select := before ++ new :: after }

/-! ## Replacing -/

theorem replaceColumn_eq_self (column : Item .select)
    (h : ∀ e ∈ q.select, (e == old) = false) : q.replaceColumn old column = q := by
  have hselect : replaceFirst (· == old) (fun _ ↦ column.expr) q.select = q.select :=
    replaceFirst_eq_self fun e he heq ↦ absurd (h e he) (by simp [heq])
  rw [replaceColumn, hselect]
  cases q
  rfl

theorem replacesFirst_replaceColumn (column : Item .select)
    (h : ∃ e ∈ q.select, (e == old) = true) :
    q.ReplacesFirst old column.expr (q.replaceColumn old column) := by
  obtain ⟨found, hfound⟩ := Option.isSome_iff_exists.mp (List.find?_isSome.mpr h)
  obtain ⟨heq, before, after, hselect, hbefore⟩ := List.find?_eq_some_iff_append.mp hfound
  have hunequal : ∀ x ∈ before, (x == old) = false := fun x hx ↦ by simpa using hbefore x hx
  refine ⟨before, found, after, hselect, hunequal, heq, ?_⟩
  rw [replaceColumn, hselect, replaceFirst_append_cons _ hunequal heq]

/-- A column of the query itself is found, if it equals itself. -/
theorem replacesFirst_of_mem (column : Item .select) (h : old ∈ q.select) (hfree : old.NaNFree) :
    q.ReplacesFirst old column.expr (q.replaceColumn old column) :=
  replacesFirst_replaceColumn column ⟨old, h, (Expr.beq_self_iff old).mpr hfree⟩

/-! ## Removing -/

theorem removeColumns_some (q : Query) (columns : List Expr) :
    q.removeColumns (some columns) =
      { q with select := q.select.filter fun e ↦ ∀ c ∈ columns, (c == e) = false } := by
  have htest (e : Expr) :
      (!columns.any (· == e)) = decide (∀ c ∈ columns, (c == e) = false) := by
    rw [Bool.eq_iff_iff]
    simp
  simp only [removeColumns, htest]
  rfl

theorem removeColumns_removeColumns (q : Query) (columns more : List Expr) :
    (q.removeColumns (some columns)).removeColumns (some more) =
      q.removeColumns (some (columns ++ more)) := by
  have hboth (e : Expr) :
      (∀ c ∈ columns ++ more, (c == e) = false) ↔
        (∀ c ∈ more, (c == e) = false) ∧ ∀ c ∈ columns, (c == e) = false := by
    rw [List.forall_mem_append, and_comm]
  simp only [removeColumns_some, List.filter_filter, hboth, Bool.decide_and]

theorem removeColumns_select (h : ∀ e ∈ q.select, e.NaNFree) :
    q.removeColumns (some q.select) = { q with select := [] } := by
  have hnone : (q.select.filter fun e ↦ ∀ c ∈ q.select, (c == e) = false) = [] := by
    refine List.filter_eq_nil_iff.mpr fun e he hkept ↦ ?_
    have hself : (e == e) = true := (Expr.beq_self_iff e).mpr (h e he)
    rw [of_decide_eq_true hkept e he] at hself
    exact absurd hself (by simp)
  rw [removeColumns_some, hnone]

end Query

/-- Replacing a column changes the first one that is equal, if there is one, and removing columns
keeps those equal to none of them, in their order; removing twice is removing all at once.  Every
column of a query without a NaN is found in it: each can be replaced, and all can be removed.  No
other clause is touched. -/
theorem columns_edited (q : Query) (column : Item .select) (columns more : List Expr) :
    (∀ old, (∀ e ∈ q.select, (e == old) = false) → q.replaceColumn old column = q) ∧
    (∀ old, (∃ e ∈ q.select, (e == old) = true) →
      q.ReplacesFirst old column.expr (q.replaceColumn old column)) ∧
    q.removeColumns (some columns) =
      { q with select := q.select.filter fun e ↦ ∀ c ∈ columns, (c == e) = false } ∧
    (q.removeColumns (some columns)).removeColumns (some more) =
      q.removeColumns (some (columns ++ more)) ∧
    ((∀ e ∈ q.select, e.NaNFree) →
      (∀ old ∈ q.select, q.ReplacesFirst old column.expr (q.replaceColumn old column)) ∧
      q.removeColumns (some q.select) = { q with select := [] }) := by
  refine ⟨fun old ↦ Query.replaceColumn_eq_self column,
    fun old ↦ Query.replacesFirst_replaceColumn column, q.removeColumns_some columns,
    q.removeColumns_removeColumns columns more, fun hfree ↦ ⟨fun old hold ↦ ?_, ?_⟩⟩
  · exact Query.replacesFirst_of_mem column hold (hfree old hold)
  · exact Query.removeColumns_select hfree

/-- A bound rate, a total whose end the caller hides, and a whole query that is bound to a document
and to floats, a negative zero and an infinity among them. -/
def Query.ratedOrders : Query :=
  { Query.empty with
    select := [
      .decorated (.literal (.float64 ⟨0x3FF8000000000000⟩)) .bind,
      .decorated (.decorated (.columnDef ⟨"total", some ⟨"o"⟩, none⟩) (.function .sum))
        (.custom "hidden" fun d text ↦ (text ++ "...", d)),
      .decorated (.subquery (.accounts
        (.json (.array [.number (.binary ⟨0x8000000000000000⟩), .null]))
        (.array [.float32 ⟨0x7F800000⟩, .text "NaN"]))) (.function .max)]
    sources := [⟨"orders", some "o"⟩] }

/-- Each of the columns can be replaced by the state of the order, and all can be removed. -/
theorem ratedOrders_columns_edited :
    let state : Item .select := ⟨.columnDef ⟨"state", some ⟨"o"⟩, none⟩, rfl⟩
    let q := Query.ratedOrders
    (∀ e ∈ q.select, e.NaNFree) ∧
      (∀ old ∈ q.select, q.ReplacesFirst old state.expr (q.replaceColumn old state)) ∧
      q.removeColumns (some q.select) = { q with select := [] } := by
  intro state q
  have hfree : ∀ e ∈ q.select, e.NaNFree := by decide
  exact ⟨hfree, (columns_edited q state [] []).2.2.2.2 hfree⟩

end ScopedSelect
