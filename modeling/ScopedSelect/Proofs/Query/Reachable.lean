import ScopedSelect.Proofs.Query.Admissible

/-!
# Queries that can be put together

`Query.Made` are the queries that edits make of the empty one, `Condition.Made` the conditions that
their constructors and `push` make, and `Expr.Made` what is written with them.  In a query that is
made like this, no expression stands out of place, there is one limit at most, and no condition
writes one operand after another with nothing between them, in nested queries neither.
-/

namespace ScopedSelect

mutual

/-- An expression that can be written.  What has no parts can be anything. -/
inductive Expr.Made : Expr → Prop where
  | atom {e : Expr} (h : e.leaf?.isSome) : Expr.Made e
  | decorated {e : Expr} (h : Expr.Made e) (t : Transform) : Expr.Made (.decorated e t)
  | condition {c : Condition} (h : Condition.Made c) : Expr.Made (.condition c)
  | subquery {q : Query} (h : Query.Made q) : Expr.Made (.subquery q)
  | labelled {e e' : Expr} {label : Option String} (h : Expr.Made e)
    (hlabel : e.setAlias label = .ok e') : Expr.Made e'

inductive Condition.Made : Condition → Prop where
  | combining (c : Combinator) {es : List Expr} (hes : ∀ e ∈ es, Expr.Made e) :
    Condition.Made (.combining c es)
  | single {e : Expr} (h : Expr.Made e) : Condition.Made (.single e)
  | ofParts {es : List Expr} {folding : Folding} {c : Condition} (hes : ∀ e ∈ es, Expr.Made e)
    (hc : Condition.ofParts es folding = .ok c) : Condition.Made c
  | withMap {c : Condition} (h : Condition.Made c) (map : TextMap) : Condition.Made (c.withMap map)
  | withSeed {c : Condition} (h : Condition.Made c) (seed : String) :
    Condition.Made (c.withSeed seed)
  | pushed {c : Condition} {e : Expr} (h : Condition.Made c) (he : Expr.Made e) :
    Condition.Made (c.afterPush e)

/-- A query that edits lead to, of which none is refused. -/
inductive Query.Made : Query → Prop where
  | empty : Query.Made .empty
  | edit {q q' : Query} (h : Query.Made q) (edit : Query.Edit)
    (hexprs : ∀ e ∈ edit.exprs, Expr.Made e) (hq : edit.apply q = .ok q') : Query.Made q'

end

/-- By induction on how the query was made, with the conditions and expressions in it. -/
theorem Query.Made.fits {q : Query} (h : q.Made) : q.Each Expr.Fits := by
  refine Query.Made.rec (motive_1 := fun e _ ↦ e.Everywhere Expr.Admissible)
    (motive_2 := fun c _ ↦ c.Combined ∧ ∀ e ∈ c.operands, e.Everywhere Expr.Admissible)
    (motive_3 := fun q _ ↦ q.Each Expr.Fits)
    ?atom ?decorated ?condition ?subquery ?labelled ?combining ?single ?ofParts ?withMap ?withSeed
    ?pushed ?empty ?edit h
  case atom => exact Expr.admissible_atom
  case decorated => exact fun _ t ih ↦ Expr.admissible_decorated ih t
  case condition => exact fun _ ih ↦ Expr.admissible_condition ih.1 ih.2
  case subquery => exact fun _ ih ↦ Expr.admissible_subquery ih
  case labelled => exact fun _ hlabel ih ↦ Expr.admissible_setAlias ih hlabel
  case combining => exact fun c es _ ih ↦ ⟨.combining c es, ih⟩
  case single =>
    intro e _ ih
    refine ⟨fun _ ↦ Nat.le_refl 1, ?_⟩
    simpa [Condition.single] using ih
  case ofParts =>
    intro es folding c _ hc ih
    obtain ⟨rfl, hcombined⟩ := Condition.Combined.of_ofParts hc
    exact ⟨hcombined, ih⟩
  case withMap => exact fun _ map ih ↦ ih
  case withSeed => exact fun _ seed ih ↦ ih
  case pushed =>
    intro c e _ _ ih ihe
    refine ⟨ih.1.afterPush e, ?_⟩
    rw [Condition.afterPush_eq]
    split
    · exact ih.2
    · simpa [or_imp, forall_and] using And.intro ih.2 ihe
  case empty => exact .empty
  case edit => exact fun _ edit _ hq ih ihexprs ↦ ih.apply ihexprs hq

/-- In a query that was made, everything is in place at every depth.  A condition without a
combinator has one operand at most, takes no second one, and writes nothing but its operand after
the seed. -/
theorem made_inPlace_and_combined {q : Query} (h : q.Made) :
    (∀ r, Expr.Occurs (.subquery r) (.subquery q) → r.InPlace) ∧
    ∀ c, Expr.Occurs (.condition c) (.subquery q) → c.folding.combinator? = none →
      c.operands.length ≤ 1 ∧ (c.operands ≠ [] → ∀ e, c.afterPush e = c) ∧
        c.render = c.renderLone := by
  have hall : (Expr.subquery q).Everywhere Expr.Admissible := Expr.admissible_subquery h.fits
  refine ⟨fun r hr ↦ hall _ hr, fun c hc hnone ↦ ?_⟩
  have hcombined : c.Combined := hall _ hc
  refine ⟨hcombined hnone, fun hne e ↦ ?_, hcombined.render_eq hnone⟩
  rw [Condition.afterPush_eq, if_pos ⟨hnone, hne⟩]

section Sample

/-- A condition of one operand, after a second one was refused. -/
def Condition.overdue : Condition :=
  (single (.fragment ⟨"i.due < 3", none⟩)).afterPush (.fragment ⟨"i.paid", none⟩)

def Query.orderingAccounts : Query :=
  (empty.addColumn ⟨.columnDef ⟨"account", some ⟨"o"⟩, none⟩, rfl⟩).addSource ⟨"orders", some "o"⟩

/-- The accounts with orders and with overdue invoices.  The condition of the join gets there in two
steps, and the second limit takes the place of the first. -/
def Query.dunnedAccounts : Query :=
  empty
    |>.addColumn ⟨.columnDef ⟨"id", some ⟨"a"⟩, none⟩, rfl⟩
    |>.addSource ⟨"accounts", some "a"⟩
    |>.addJoin (Edit.joining ⟨"invoices", some "i"⟩ .left none [some (.ofCondition .overdue)])
    |>.augmentJoin "i" (some (.ofCondition (.combining (.infixed .equal) [
      .columnRef ⟨"account", some ⟨"i"⟩⟩, .columnRef ⟨"id", some ⟨"a"⟩⟩])))
    |>.addFilter (some (.ofCondition (.combining (.infixed .member) [
      .columnRef ⟨"id", some ⟨"a"⟩⟩, .subquery orderingAccounts])))
    |>.setLimit ⟨9, 0⟩
    |>.setLimit ⟨5, 0⟩

theorem dunnedAccounts_inPlace :
    Query.dunnedAccounts.Made ∧ Query.orderingAccounts.InPlace ∧
      Condition.overdue.render = Condition.overdue.renderLone := by
  have hatom {e : Expr} (h : e.leaf?.isSome) : ∀ x ∈ [e], x.Made :=
    List.forall_mem_singleton.mpr (.atom h)
  have hoverdue : Condition.overdue.Made := .pushed (.single (.atom rfl)) (.atom rfl)
  have hnested : Query.orderingAccounts.Made :=
    .edit (.edit .empty (.addColumn _) (hatom rfl) rfl) (.addSource _) (by simp [Query.Edit.exprs])
      rfl
  have hcombining (c : Combinator) {e e' : Expr} (he : e.Made) (he' : e'.Made) :
      ∀ x ∈ [Expr.condition (.combining c [e, e'])], x.Made := by
    refine List.forall_mem_singleton.mpr (.condition (.combining c ?_))
    simp [he, he']
  have hmade : Query.dunnedAccounts.Made := by
    refine .edit ?_ (.setLimit _) (by simp [Query.Edit.exprs]) rfl
    refine .edit ?_ (.setLimit _) (by simp [Query.Edit.exprs]) rfl
    refine .edit ?_ (.addFilter _) ?filter rfl
    refine .edit ?_ (.augmentJoin _ _) ?more rfl
    refine .edit ?_ (.addJoin _ _ _ _) ?on rfl
    refine .edit ?_ (.addSource _) (by simp [Query.Edit.exprs]) rfl
    exact .edit .empty (.addColumn _) (hatom rfl) rfl
    case filter => exact hcombining _ (.atom rfl) (.subquery hnested)
    case more => exact hcombining _ (.atom rfl) (.atom rfl)
    case on => exact List.forall_mem_singleton.mpr (.condition hoverdue)
  obtain ⟨hplaced, hcombined⟩ := made_inPlace_and_combined hmade
  have hparts : Query.dunnedAccounts.parts = [_, .condition (.combining .conjunction [_, _]),
    .condition (.combining _ [_, .subquery Query.orderingAccounts])] := rfl
  refine ⟨hmade, hplaced _ ?nested, (hcombined _ ?lone rfl).2.2⟩
  case nested =>
    refine .part (hparts ▸ List.mem_cons_of_mem _ (List.mem_cons_of_mem _ List.mem_cons_self)) ?_
    exact .part (List.mem_cons_of_mem _ List.mem_cons_self) .self
  case lone =>
    refine .part (hparts ▸ List.mem_cons_of_mem _ List.mem_cons_self) ?_
    exact .part List.mem_cons_self .self

end Sample
end ScopedSelect
