import ScopedSelect.Proofs.Query.Edits

/-!
# What is asked of the nodes of a query

A condition without a combinator has one operand at most, and whatever stands in a clause of a query
is supported there.  The functions of the short notation make nothing else, and an edit keeps both
if what it puts into the query has them (`Query.Each.apply`).
-/

namespace ScopedSelect

/-- Every expression supports the clause that it stands in, and there is one limit at most. -/
def Query.InPlace (q : Query) : Prop :=
  q.Each fun c e ↦ e.supports c = true

namespace Condition

/-- The condition after a push: a push that is refused leaves it as it is. -/
def afterPush (c : Condition) (operand : Expr) : Condition :=
  match c.push operand with
  | .ok pushed => pushed
  | .error _ => c

def Combined (c : Condition) : Prop :=
  c.folding.combinator? = none → c.operands.length ≤ 1

/-- The text of a condition that has one operand at most: the seed and, right after it, what the map
makes of the operand. -/
def renderLone (c : Condition) : Rendering String :=
  match c.operands with
  | [] => pure (Folding.enclose c.folding.seed?)
  | operand :: _ => do
    let text ← operand.render
    return Folding.enclose (some (c.folding.seed?.getD "" ++ c.folding.mapped text))

variable {c : Condition}

theorem Combined.combining (c : Combinator) (es : List Expr) : (combining c es).Combined := by
  intro hnone
  simp [Condition.combining, Folding.combining] at hnone

theorem afterPush_eq (c : Condition) (operand : Expr) :
    c.afterPush operand =
      if c.folding.combinator? = none ∧ c.operands ≠ [] then c
      else { c with operands := c.operands ++ [operand] } := by
  unfold afterPush push
  by_cases h : c.folding.combinator? = none ∧ c.operands ≠ [] <;> simp [h]

theorem Combined.afterPush (h : c.Combined) (operand : Expr) : (c.afterPush operand).Combined := by
  rw [afterPush_eq]
  split
  · exact h
  · rename_i hopen
    intro hnone
    have hempty : c.operands = [] := by
      by_contra hne
      exact hopen ⟨hnone, hne⟩
    simp [hempty]

theorem Combined.of_ofParts {es : List Expr} {folding : Folding} (h : ofParts es folding = .ok c) :
    c.operands = es ∧ c.Combined := by
  unfold ofParts at h
  split at h
  · cases h
  · rename_i hfew
    cases h
    refine ⟨rfl, fun hnone ↦ ?_⟩
    replace hnone : folding.combinator? = none := hnone
    simpa [hnone] using hfew

/-- Without a combinator nothing is ever written between two operands: there are no two. -/
theorem Combined.render_eq (h : c.Combined) (hnone : c.folding.combinator? = none) :
    c.render = c.renderLone := by
  obtain ⟨operands, folding⟩ := c
  have hfew : operands.length ≤ 1 := h hnone
  replace hnone : folding.combinator? = none := hnone
  rw [render]
  rcases operands with _ | ⟨e, _ | ⟨e', operands⟩⟩
  · simp [renderAll, renderLone, Folding.text, Folding.accumulate]
  · have hstep (text : String) :
        folding.step folding.seed? (folding.mapped text) =
          folding.seed?.getD "" ++ folding.mapped text := by
      cases hseed : folding.seed? <;> simp [Folding.step, hnone]
    simp [renderAll, renderLone, Folding.text, Folding.accumulate, hstep]
  · simp at hfew

end Condition

namespace Expr

/-- What is asked of a node: of a condition that it is combined, of a query that all is in place. -/
def Admissible : Expr → Prop
  | .condition c => c.Combined
  | .subquery q => q.InPlace
  | _ => True

/-- What is asked of an expression in a clause. -/
def Fits (c : Clause) (e : Expr) : Prop :=
  e.supports c = true ∧ e.Everywhere Admissible

variable {e e' : Expr}

theorem admissible_atom (h : e.leaf?.isSome) : e.Everywhere Admissible := by
  rw [everywhere_iff]
  cases e <;> simp_all [leaf?, Admissible, parts]

theorem admissible_decorated (h : e.Everywhere Admissible) (t : Transform) :
    (decorated e t).Everywhere Admissible := by
  rw [everywhere_iff]
  refine ⟨trivial, fun y hy ↦ ?_⟩
  rcases bound_or_rendered e t with ⟨v, rfl, rfl⟩ | hinner
  · simp [parts, literal?] at hy
  · rw [parts_decorated hinner, List.mem_singleton] at hy
    exact hy ▸ h

theorem admissible_condition {c : Condition} (h : c.Combined)
    (hoperands : ∀ e ∈ c.operands, e.Everywhere Admissible) :
    (condition c).Everywhere Admissible :=
  everywhere_iff.mpr ⟨h, hoperands⟩

theorem admissible_combining (c : Combinator) {es : List Expr}
    (hes : ∀ e ∈ es, e.Everywhere Admissible) :
    (condition (.combining c es)).Everywhere Admissible :=
  admissible_condition (.combining c es) hes

theorem admissible_subquery {q : Query} (h : q.Each Fits) :
    (subquery q).Everywhere Admissible := by
  refine everywhere_iff.mpr ⟨h.mono fun _ _ hfits ↦ hfits.1, fun e he ↦ ?_⟩
  obtain ⟨_, hfits⟩ := h.exists_of_mem_parts he
  exact hfits.2

theorem admissible_setAlias {label : Option String} (h : e.Everywhere Admissible)
    (hlabel : e.setAlias label = .ok e') : e'.Everywhere Admissible := by
  induction e using setAlias.induct generalizing e' with
  | case5 inner t ih =>
    rw [setAlias] at hlabel
    cases hinner : inner.setAlias label with
    | error err => simp [hinner, Except.map] at hlabel
    | ok inner' =>
      obtain rfl : decorated inner' t = e' := by simpa [hinner, Except.map] using hlabel
      refine admissible_decorated ?_ t
      rcases bound_or_rendered inner t with ⟨v, rfl, rfl⟩ | hrendered
      · simp [setAlias] at hinner
      · exact ih (h.inner hrendered) hinner
  | case6 e => simp_all [setAlias]
  | _ =>
    cases hlabel
    exact admissible_atom rfl

theorem admissible_column (spec : String) : (Shorthand.column spec).Everywhere Admissible := by
  unfold Shorthand.column
  split
  · exact admissible_atom rfl
  · exact admissible_atom rfl

theorem admissible_bound {α : Type} [ToValue α] (v : α) :
    (Shorthand.bound v).Everywhere Admissible :=
  admissible_decorated (admissible_atom rfl) _

theorem admissible_reference (spec : String) :
    (Shorthand.reference spec).Everywhere Admissible := by
  unfold Shorthand.reference
  split
  · exact admissible_atom rfl
  · split
    · exact admissible_bound _
    · exact admissible_atom rfl

theorem admissible_target {spec : String} (h : Shorthand.target spec = .ok e) :
    e.Everywhere Admissible := by
  unfold Shorthand.target at h
  split at h
  · cases h
    exact admissible_reference spec
  · split at h
    · cases h
      exact admissible_atom rfl
    · cases h

theorem admissible_aliased {label : String} (h : e.Everywhere Admissible)
    (hlabel : Shorthand.aliased e label = .ok e') : e'.Everywhere Admissible := by
  unfold Shorthand.aliased at hlabel
  cases hset : e.setAlias (some label) with
  | error err => simp [hset, Except.mapError] at hlabel
  | ok labelled =>
    obtain rfl : labelled = e' := by simpa [hset, Except.mapError] using hlabel
    exact admissible_setAlias h hset

end Expr

theorem Item.expr_of_ofExpr {c : Clause} {e : Expr} {item : Item c}
    (h : Item.ofExpr c e = .ok item) : item.expr = e := by
  unfold Item.ofExpr at h
  split at h
  · cases h
    rfl
  · cases h

theorem Item.fits {c : Clause} (item : Item c) (h : item.expr.Everywhere Expr.Admissible) :
    item.expr.Fits c :=
  ⟨item.supported, h⟩

theorem Item.fits_of_ofExpr {c : Clause} {e : Expr} {item : Item c}
    (h : Item.ofExpr c e = .ok item) (he : e.Everywhere Expr.Admissible) : item.expr.Fits c :=
  item.fits (Item.expr_of_ofExpr h ▸ he)

theorem ColumnSpec.fits_of_toItem {column : ColumnSpec} {item : Item .select}
    (h : column.toItem = .ok item) : item.expr.Fits .select := by
  have hfits {labelled e : Expr} (hlabelled : labelled.Everywhere Expr.Admissible)
      (he : e = labelled ∨ ∃ t, e = .decorated labelled t)
      (hitem : Item.ofExpr .select e = .ok item) : item.expr.Fits .select := by
    refine Item.fits_of_ofExpr hitem ?_
    rcases he with rfl | ⟨t, rfl⟩
    · exact hlabelled
    · exact Expr.admissible_decorated hlabelled t
  have hcolumn := Expr.admissible_column column.spec
  cases hlabel : column.alias? <;> cases htransform : column.transform?
  all_goals simp only [ColumnSpec.toItem, hlabel, htransform] at h
  case none.none => exact hfits hcolumn (.inl rfl) h
  case none.some t => exact hfits hcolumn (.inr ⟨t, rfl⟩) h
  case some.none =>
    obtain ⟨labelled, haliased, hitem⟩ := exists_of_bind_eq_ok h
    exact hfits (Expr.admissible_aliased hcolumn haliased) (.inl rfl) hitem
  case some.some t =>
    obtain ⟨labelled, haliased, hitem⟩ := exists_of_bind_eq_ok h
    exact hfits (Expr.admissible_aliased hcolumn haliased) (.inr ⟨t, rfl⟩) hitem

namespace Query

variable {q q' : Query}

theorem fits_of_conjunctionOf {conditions : List Expr} {condition : Option (Item .filter)}
    (hconditions : ∀ e ∈ conditions, e.Everywhere Expr.Admissible)
    (h : conjunctionOf conditions = .ok condition) :
    ∀ item ∈ condition, item.expr.Fits .filter := by
  have hitem {e : Expr} (he : e.Everywhere Expr.Admissible)
      (h : (Item.ofExpr .filter e).map some = .ok condition) :
      ∀ item ∈ condition, item.expr.Fits .filter := by
    cases hof : Item.ofExpr .filter e with
    | error err => simp [hof, Except.map] at h
    | ok item =>
      obtain rfl : some item = condition := by simpa [hof, Except.map] using h
      intro item' hmem
      cases hmem
      exact Item.fits_of_ofExpr hof he
  match conditions with
  | [] =>
    cases h
    simp
  | [e] => exact hitem (hconditions e List.mem_cons_self) h
  | e :: e' :: es => exact hitem (Expr.admissible_combining _ hconditions) h

/-! ## One edit keeps what is asked -/

namespace Each

open ScopedSelect.Expr

theorem conjunction_fits {e e' : Expr} (h : e.Fits .filter) (h' : e'.Fits .filter) :
    (Expr.condition (.combining .conjunction [e, e'])).Fits .filter := by
  refine ⟨rfl, admissible_combining _ ?_⟩
  simpa [Condition.combining] using And.intro h.2 h'.2

theorem selectColumn (h : q.Each Fits) {column : ColumnSpec}
    (hq : q.selectColumn column = .ok q') : q'.Each Fits := by
  obtain ⟨item, hitem, hq⟩ := exists_of_bind_eq_ok hq
  cases hq
  exact h.addColumn (ColumnSpec.fits_of_toItem hitem)

theorem filter (h : q.Each Fits) {condition : Expr} (hcondition : condition.Everywhere Admissible)
    (hq : q.filter condition = .ok q') : q'.Each Fits := by
  obtain ⟨item, hitem, hq⟩ := exists_of_bind_eq_ok hq
  cases hq
  refine h.addFilter fun item' hmem ↦ ?_
  cases hmem
  exact Item.fits_of_ofExpr hitem hcondition

theorem groupBy (h : q.Each Fits) {spec : String} (hq : q.groupBy spec = .ok q') :
    q'.Each Fits := by
  obtain ⟨target, htarget, hq⟩ := exists_of_bind_eq_ok hq
  obtain ⟨item, hitem, hq⟩ := exists_of_bind_eq_ok hq
  cases hq
  exact h.addGroup (Item.fits_of_ofExpr hitem (admissible_target htarget))

theorem orderBy (h : q.Each Fits) {spec : String} {direction : Direction}
    (hq : q.orderBy spec direction = .ok q') : q'.Each Fits := by
  obtain ⟨target, htarget, hq⟩ := exists_of_bind_eq_ok hq
  obtain ⟨item, hitem, hq⟩ := exists_of_bind_eq_ok hq
  cases hq
  exact h.addOrder (Item.fits_of_ofExpr hitem (admissible_target htarget))

/-- An edit keeps what is asked in every clause, if what it puts there is admissible. -/
theorem apply (h : q.Each Fits) {edit : Edit}
    (hexprs : ∀ e ∈ edit.exprs, e.Everywhere Admissible) (hq : edit.apply q = .ok q') :
    q'.Each Fits := by
  have hoptional {condition : Option (Item .filter)}
      (h : ∀ e ∈ (condition.map Item.expr).toList, e.Everywhere Admissible) :
      ∀ item ∈ condition, item.expr.Fits .filter := by
    intro item hitem
    refine item.fits (h _ ?_)
    simp [Option.mem_def.mp hitem]
  cases edit with
  | addColumn column =>
    cases hq
    exact h.addColumn (column.fits (hexprs _ List.mem_cons_self))
  | replaceColumn old column =>
    cases hq
    exact h.replaceColumn old (column.fits (hexprs _ List.mem_cons_self))
  | removeColumns columns =>
    cases hq
    exact h.removeColumns columns
  | addSource table | source table =>
    cases hq
    exact h.addSource _
  | addJoin table kind on? more =>
    cases hq
    refine h.addJoin (Each.joining conjunction_fits fun condition hcondition item hitem ↦ ?_)
    refine item.fits (hexprs _ (List.mem_filterMap.mpr ⟨condition, hcondition, ?_⟩))
    rw [Option.mem_def.mp hitem, Option.map_some]
  | augmentJoin table condition =>
    cases hq
    exact h.augmentJoin conjunction_fits table (hoptional hexprs)
  | addFilter condition =>
    cases hq
    exact h.addFilter (hoptional hexprs)
  | addGroup target =>
    cases hq
    exact h.addGroup (target.fits (hexprs _ List.mem_cons_self))
  | addHaving condition =>
    cases hq
    exact h.addHaving (condition.fits (hexprs _ List.mem_cons_self))
  | addOrder target direction =>
    cases hq
    exact h.addOrder (target.fits (hexprs _ List.mem_cons_self))
  | setLimit | limitTo =>
    cases hq
    exact h.setLimit _
  | selectColumn column => exact h.selectColumn hq
  | selectColumns table columns =>
    exact foldlM_keeps (fun hkept hstep ↦ selectColumn hkept hstep) h hq
  | reselectColumn old column =>
    obtain ⟨item, hitem, hq⟩ := exists_of_bind_eq_ok hq
    cases hq
    exact h.replaceColumn old (ColumnSpec.fits_of_toItem hitem)
  | join kind table label conditions =>
    obtain ⟨condition, hcondition, hq⟩ := exists_of_bind_eq_ok hq
    cases hq
    refine h.addJoin fun e he ↦ ?_
    obtain ⟨item, hitem, rfl⟩ := Option.map_eq_some_iff.mp he
    exact fits_of_conjunctionOf hexprs hcondition item hitem
  | joinOn table conditions =>
    obtain ⟨condition, hcondition, hq⟩ := exists_of_bind_eq_ok hq
    cases hq
    exact h.augmentJoin conjunction_fits table (fits_of_conjunctionOf hexprs hcondition)
  | filter condition => exact h.filter (hexprs _ List.mem_cons_self) hq
  | filterMember column values =>
    refine h.filter (admissible_combining _ ?_) hq
    intro e he
    rcases List.mem_pair.mp he with rfl | rfl
    · exact admissible_reference column
    · refine admissible_combining _ fun e he ↦ ?_
      obtain ⟨v, -, rfl⟩ := List.mem_map.mp he
      exact admissible_bound v
  | groupBy spec => exact h.groupBy hq
  | groupByAll specs => exact foldlM_keeps (fun hkept hstep ↦ groupBy hkept hstep) h hq
  | orderBy spec direction => exact h.orderBy hq
  | orderByAll specs => exact foldlM_keeps (fun hkept hstep ↦ orderBy hkept hstep) h hq

end Each
end Query
end ScopedSelect
