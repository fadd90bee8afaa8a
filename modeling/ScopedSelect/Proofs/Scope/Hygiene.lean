import ScopedSelect.Proofs.Scope.Soundness

/-!
# Which names are taken at each level of nesting

A table is checked against the visible tables of its own level alone, and a nested query may be
rendered before the tables around it are.  Once the whole query has a text, though, all of these
checks have passed, and the tables that are visible at one level show different names.  What a
column prints before its name therefore names one table (`render_hygienic`).
-/

namespace ScopedSelect

section Distinct

variable {α : Type} {P Q : α → Prop} {xs ys zs : List α}

theorem AtMostOne.mono (hQ : AtMostOne Q xs) (h : ∀ x, P x → Q x) : AtMostOne P xs :=
  hQ.imp fun hxy hP ↦ hxy ⟨h _ hP.1, h _ hP.2⟩

theorem atMostOne_append_append (hxs : ∀ x ∈ xs, ¬P x) (hys : AtMostOne P ys)
    (hzs : ∀ z ∈ zs, ¬P z) : AtMostOne P (xs ++ ys ++ zs) := by
  refine List.pairwise_append.mpr ⟨List.pairwise_append.mpr
    ⟨atMostOne_of_forall_not hxs, hys, ?_⟩, atMostOne_of_forall_not hzs, ?_⟩
  · exact fun x hx _ _ hP ↦ hxs x hx hP.1
  · exact fun _ _ z hz hP ↦ hzs z hz hP.2

theorem nodup_map_iff_atMostOne {f : α → String} :
    (xs.map f).Nodup ↔ ∀ name, AtMostOne (f · = name) xs := by
  rw [List.Nodup, List.pairwise_map]
  simp only [AtMostOne, List.pairwise_iff_getElem]
  constructor
  · rintro h name i j hi hj hij ⟨hx, hy⟩
    exact h i j hi hj hij (hx.trans hy.symm)
  · exact fun h i j hi hj hij heq ↦ h _ i j hi hj hij ⟨heq, rfl⟩

end Distinct

namespace Scope

def TablesDistinct (s : Scope) : Prop :=
  (s.tables.map TableSymbol.displayName).Nodup

variable {s : Scope}

theorem TablesDistinct.exactlyOne (h : s.TablesDistinct) {t : TableSymbol} (ht : t ∈ s.tables) :
    ExactlyOne (·.displayName = t.displayName) s.tables :=
  ⟨nodup_map_iff_atMostOne.mp h t.displayName, t, ht, rfl⟩

/-- The check of a table counts all the tables of its name, inherited ones included; a name that
none of the query's own tables shows is left to the inherited ones. -/
theorem TablesDistinct.scopeIn {q : Query} (h : s.TablesDistinct) (hq : q.WellScoped s) :
    (q.scopeIn s).TablesDistinct := by
  obtain ⟨-, tables, -⟩ := hq
  refine nodup_map_iff_atMostOne.mpr fun name ↦ ?_
  by_cases hown : ∃ t ∈ q.tables, t.displayName = name
  · obtain ⟨t, ht, rfl⟩ := hown
    exact tables t ht
  · have hother (t : TableDef) (ht : t ∈ q.tables) : t.symbol.displayName ≠ name :=
      fun heq ↦ hown ⟨t, ht, heq⟩
    refine atMostOne_append_append ?_ (nodup_map_iff_atMostOne.mp h name) ?_
    · rw [List.forall_mem_map]
      exact fun t ht ↦ hother t (List.mem_append_left _ ht)
    · rw [List.forall_mem_map]
      exact fun j hj ↦ hother j.table (List.mem_append_right _ (List.mem_map_of_mem hj))

end Scope

namespace Expr

/-- The scope of the parts of an expression: a query has one of its own. -/
def partsScope (s : Scope) : Expr → Scope
  | .subquery q => q.scopeIn s
  | _ => s

/-- Where an expression stands in a scope, the expression `x` in it stands in the scope `s'`. -/
inductive StandsIn (x : Expr) (s' : Scope) : Scope → Expr → Prop where
  | self : StandsIn x s' s' x
  | part {s : Scope} {y e : Expr} (hy : y ∈ e.parts) (hx : StandsIn x s' (e.partsScope s) y) :
    StandsIn x s' s e

variable {e x y : Expr} {s s' : Scope}

/-- Whatever occurs in an expression stands in some scope. -/
theorem Occurs.exists_standsIn (h : Occurs x e) : ∀ s, ∃ s', x.StandsIn s' s e := by
  induction h with
  | self => exact fun s ↦ ⟨s, .self⟩
  | part hy _ ih =>
    intro s
    obtain ⟨s', hx⟩ := ih (partsScope s _)
    exact ⟨s', .part hy hx⟩

theorem WellScoped.of_mem_parts (h : e.WellScoped s) (hy : y ∈ e.parts) :
    y.WellScoped (e.partsScope s) := by
  cases h with
  | @decorated _ inner t hinner =>
    rcases bound_or_rendered inner t with ⟨v, rfl, rfl⟩ | hrendered
    · simp [parts, literal?] at hy
    · rw [parts_decorated hrendered, List.mem_singleton] at hy
      exact hy ▸ hinner
  | condition hoperands => exact hoperands y hy
  | subquery hq =>
    obtain ⟨-, -, hparts⟩ := hq
    exact hparts y hy
  | _ => simp [parts] at hy

theorem StandsIn.wellScoped (h : x.StandsIn s' s e) (he : e.WellScoped s)
    (hs : s.TablesDistinct) : x.WellScoped s' ∧ s'.TablesDistinct := by
  induction h with
  | self => exact ⟨he, hs⟩
  | @part s y e hy _ ih =>
    have hparts : (e.partsScope s).TablesDistinct := by
      cases he with
      | subquery hq => exact hs.scopeIn hq
      | _ => exact hs
    exact ih (he.of_mem_parts hy) hparts

/-- What holds everywhere in an expression holds everywhere in what stands in it, and what is
visible there has any property that nested queries keep. -/
theorem StandsIn.everywhere {P : Expr → Prop} {inv : Scope → Prop}
    (henter : ∀ q s, P (.subquery q) → inv s → inv (q.scopeIn s)) (h : x.StandsIn s' s e)
    (he : e.Everywhere P) (hs : inv s) : x.Everywhere P ∧ inv s' := by
  induction h with
  | self => exact ⟨he, hs⟩
  | @part s y e hy _ ih =>
    have hparts : inv (e.partsScope s) := by
      cases e with
      | subquery q => exact henter q s he.here hs
      | _ => exact hs
    exact ih (he.of_mem_parts hy) hparts

/-- The column that a selected expression defines, within its decorations. -/
def definition? : Expr → Option ColumnDef
  | .columnDef c => some c
  | .decorated inner _ => inner.definition?
  | _ => none

theorem symbol?_of_definition? {c : ColumnDef} (h : e.definition? = some c) :
    e.symbol? = some c.symbol := by
  fun_induction definition? e with
  | case1 c' => rw [symbol?, Option.some.inj h]
  | case2 inner t ih => exact ih h
  | case3 => simp at h

theorem WellScoped.of_definition? {c : ColumnDef} (h : e.WellScoped s)
    (hc : e.definition? = some c) : c.WellScoped s := by
  fun_induction definition? e with
  | case1 c' =>
    cases h with
    | columnDef h => exact Option.some.inj hc ▸ h
  | case2 inner t ih =>
    cases h with
    | decorated _ h => exact ih h hc
  | case3 => simp at hc

end Expr

/-- A column as it is printed: alone, or after what is printed for its table. -/
def withQualifier (qualifier : Option String) (name : String) : String :=
  qualifier.elim name (· ++ "." ++ name)

theorem ColumnRef.WellScoped.printed {r : ColumnRef} {s : Scope} (h : r.WellScoped s)
    (hs : s.TablesDistinct) :
    ∃ qualifier, r.text s = .ok (withQualifier qualifier r.name) ∧
      ∀ shown ∈ qualifier, ExactlyOne (·.displayName = shown) s.tables := by
  obtain ⟨text, htext⟩ := ColumnRef.exists_text_iff.mpr h
  rcases ColumnRef.eq_of_text htext with rfl | ⟨t, ht, rfl⟩
  · exact ⟨none, htext, by simp⟩
  · refine ⟨some t.displayName, htext, ?_⟩
    rintro _ ⟨⟩
    exact hs.exactlyOne ht

theorem ColumnDef.WellScoped.printed {c : ColumnDef} {s : Scope} (h : c.WellScoped s)
    (hs : s.TablesDistinct) :
    ∃ qualifier, c.text s = .ok (withQualifier qualifier c.name) ∧
      ∀ shown ∈ qualifier, ExactlyOne (·.displayName = shown) s.tables ∨
        ∀ t ∈ s.tables, ¬t.Answers shown := by
  obtain ⟨text, htext⟩ := ColumnDef.exists_text_iff.mpr h
  obtain rfl := ColumnDef.eq_of_text htext
  cases htable : c.table? with
  | none => exact ⟨none, by simp [htext, htable, withQualifier], by simp⟩
  | some table =>
    refine ⟨some (qualifierText table s), by simp [htext, htable, withQualifier], ?_⟩
    rintro _ ⟨⟩
    unfold ColumnDef.qualifierText
    cases hfound : s.findTable? table.name with
    | some found => exact .inl (hs.exactlyOne (Scope.findTable?_eq_some hfound).1)
    | none =>
      refine .inr fun t ht hanswers ↦ ?_
      obtain ⟨found, hsome⟩ := Scope.exists_findTable?_iff.mpr ⟨t, ht, hanswers⟩
      simp [hfound] at hsome

theorem Query.WellScoped.exactlyOne_column {q : Query} {s : Scope} (h : q.WellScoped s) {e : Expr}
    {c : ColumnDef} (he : e ∈ q.select) (hc : e.definition? = some c) :
    ExactlyOne (·.displayName? = some c.displayName) (q.scopeIn s).columns := by
  obtain ⟨-, -, parts⟩ := h
  have hselected : e ∈ q.parts := by simp [Query.parts, he]
  have hc' : c.WellScoped (q.scopeIn s) := (parts e hselected).of_definition? hc
  refine ⟨hc'.column.mono fun _ ↦ .inl, c.symbol, ?_, ?_⟩
  · refine List.mem_append_right _ (List.mem_filterMap.mpr ⟨e, he, ?_⟩)
    exact Expr.symbol?_of_definition? hc
  · cases halias : c.alias? <;>
      simp [ColumnSymbol.displayName?, ColumnDef.symbol, ColumnDef.displayName, halias]

/-- At every level of nesting, and wherever a column stands, names are told apart. -/
structure Query.Hygienic (q : Query) (s : Scope) : Prop where
  tables {q' : Query} {outer : Scope} (h : (Expr.subquery q').StandsIn outer s (.subquery q)) :
    (q'.scopeIn outer).TablesDistinct
  /-- What is printed before a reference is the name that one visible table shows. -/
  references {r : ColumnRef} {s' : Scope} (h : (Expr.columnRef r).StandsIn s' s (.subquery q)) :
    ∃ qualifier, r.text s' = .ok (withQualifier qualifier r.name) ∧
      ∀ shown ∈ qualifier, ExactlyOne (·.displayName = shown) s'.tables
  /-- What is printed before a definition is that, or no visible table answers to it. -/
  definitions {c : ColumnDef} {s' : Scope} (h : (Expr.columnDef c).StandsIn s' s (.subquery q)) :
    ∃ qualifier, c.text s' = .ok (withQualifier qualifier c.name) ∧
      ∀ shown ∈ qualifier, ExactlyOne (·.displayName = shown) s'.tables ∨
        ∀ t ∈ s'.tables, ¬t.Answers shown
  /-- Among the columns visible at a level, one shows the name of a selected definition. -/
  selected {q' : Query} {outer : Scope} {e : Expr} {c : ColumnDef}
    (h : (Expr.subquery q').StandsIn outer s (.subquery q)) (he : e ∈ q'.select)
    (hc : e.definition? = some c) :
    ExactlyOne (·.displayName? = some c.displayName) (q'.scopeIn outer).columns

theorem Query.WellScoped.hygienic {q : Query} {s : Scope} (h : q.WellScoped s)
    (hs : s.TablesDistinct) : q.Hygienic s where
  tables hstands := by
    obtain ⟨hq', houter⟩ := hstands.wellScoped (.subquery h) hs
    cases hq' with
    | subquery hq' => exact houter.scopeIn hq'
  references hstands := by
    obtain ⟨hr, hs'⟩ := hstands.wellScoped (.subquery h) hs
    cases hr with
    | columnRef hr => exact hr.printed hs'
  definitions hstands := by
    obtain ⟨hc, hs'⟩ := hstands.wellScoped (.subquery h) hs
    cases hc with
    | columnDef hc => exact hc.printed hs'
  selected hstands he hc := by
    obtain ⟨hq', -⟩ := hstands.wellScoped (.subquery h) hs
    cases hq' with
    | subquery hq' => exact hq'.exactlyOne_column he hc

/-- If the functions of the caller leave the scope as it is, a query that has a text in a fresh
domain keeps its names apart at every level of nesting. -/
theorem render_hygienic (q : Query) (sql : String) (h : q.Everywhere Expr.KeepsScope)
    (hsql : (q.render .fresh).1 = .ok sql) : q.Hygienic .empty := by
  have hwellScoped : q.WellScoped .empty :=
    (Query.renderNested_isOk_iff h).mp (Query.isOk_iff_renderNested.mp ⟨sql, hsql⟩)
  exact hwellScoped.hygienic List.nodup_nil

/-- The orders of an account that is visible as `accounts`, in the table around them. -/
def Query.ordersOfAccount : Query :=
  { Query.empty with
    select := [.columnDef ⟨"account", some ⟨"orders"⟩, none⟩]
    sources := [⟨"orders", some "o"⟩]
    filters := [some (.condition (.combining (.infixed .equal) [
      .columnRef ⟨"account", some ⟨"orders"⟩⟩, .columnRef ⟨"number", some ⟨"accounts"⟩⟩]))] }

def Query.accountsWithOrders : Query :=
  { Query.empty with
    select := [.columnDef ⟨"id", some ⟨"a"⟩, none⟩]
    sources := [⟨"accounts", some "a"⟩]
    filters := [some (.subquery .ordersOfAccount)] }

/-- Within the orders, the account is printed by the name that its table shows. -/
theorem accountsWithOrders_hygienic :
    let level := Query.ordersOfAccount.scopeIn (Query.accountsWithOrders.scopeIn .empty)
    Query.accountsWithOrders.Everywhere Expr.KeepsScope ∧
      (Query.accountsWithOrders.render .fresh).1 = .ok
        ("SELECT a.id FROM accounts AS a WHERE " ++
          "(SELECT o.account FROM orders AS o WHERE (o.account = a.number))") ∧
      level.TablesDistinct ∧
      ExactlyOne (·.displayName? = some "account") level.columns := by
  intro level
  have hfree : Query.accountsWithOrders.CustomFree := by decide
  have hkeeps : Query.accountsWithOrders.Everywhere Expr.KeepsScope := hfree.everywhere_keepsScope
  have hrender : (Query.accountsWithOrders.render .fresh).1 = .ok
      ("SELECT a.id FROM accounts AS a WHERE " ++
        "(SELECT o.account FROM orders AS o WHERE (o.account = a.number))") := rfl
  have hstands : (Expr.subquery .ordersOfAccount).StandsIn
      (Query.accountsWithOrders.scopeIn .empty) .empty (.subquery .accountsWithOrders) :=
    .part (y := .subquery .ordersOfAccount)
      (by simp [Expr.parts, Query.parts, Query.accountsWithOrders]) .self
  have hygienic := render_hygienic _ _ hkeeps hrender
  refine ⟨hkeeps, hrender, hygienic.tables hstands, ?_⟩
  exact hygienic.selected hstands List.mem_cons_self rfl

/-- A function of the caller that clears the domain lets two tables of one name stand side by
side. -/
theorem clearedAccounts_not_hygienic :
    (Query.clearedAccounts.render .fresh).1 = .ok "SELECT 1 FROM accounts,accounts" ∧
      ¬Query.clearedAccounts.Hygienic .empty := by
  refine ⟨rfl, fun hygienic ↦ ?_⟩
  have hdistinct : ((Query.clearedAccounts.scopeIn .empty).tables.map
      TableSymbol.displayName).Nodup := hygienic.tables .self
  exact absurd hdistinct (by decide)

end ScopedSelect
