import ScopedSelect.Proofs.Binding.Completeness
import ScopedSelect.Proofs.Scope.Apart

/-!
# A nested query with names of its own renders as it does alone

Nothing in a query looks at a visible table or column that goes by none of the names in the query.
Where all of them are such, the query has as an operand the text that it has alone, between
parentheses, with the same values, or fails in the same way (`render_subquery_eq_build`).
-/

namespace ScopedSelect

namespace Expr

/-- The names, aliases and qualifiers that stand in an expression itself, not in its parts. -/
def names : Expr → List String
  | .tableDef t => t.symbol.labels
  | .tableRef t => [t.name]
  | .columnDef c => c.name :: (c.alias?.toList ++ c.table?.toList.map TableRef.name)
  | .columnRef r => r.name :: r.table?.toList.map TableRef.name
  | .position p => p.alias?.toList
  | .fragment f => f.alias?.toList
  | .subquery q => q.tables.flatMap fun t ↦ t.symbol.labels
  | _ => []

/-- No name in the expression itself is taken. -/
def Untaken (taken : List String) (e : Expr) : Prop :=
  ∀ n ∈ e.names, n ∉ taken

/-- A column that is made visible with a table is defined in the expression. -/
theorem exists_definition?_of_symbol? {e : Expr} {c : ColumnSymbol} {table : String}
    (hc : e.symbol? = some c) (htable : c.table? = some table) :
    ∃ x : ColumnDef, Occurs (.columnDef x) e ∧ x.table? = some ⟨table⟩ := by
  fun_induction symbol? e with
  | case1 x =>
    obtain rfl := Option.some.inj hc
    obtain ⟨written, hwritten, rfl⟩ := Option.map_eq_some_iff.mp htable
    exact ⟨x, .self, hwritten⟩
  | case2 f =>
    obtain rfl := Option.some.inj hc
    simp at htable
  | case3 v =>
    obtain rfl := Option.some.inj hc
    simp at htable
  | case4 inner t ih =>
    obtain ⟨x, hx, hwritten⟩ := ih hc
    refine ⟨x, .part (y := inner) ?_ hx, hwritten⟩
    rcases bound_or_rendered inner t with ⟨v, rfl, rfl⟩ | hrendered
    · obtain rfl := Option.some.inj hc
      simp at htable
    · simp [parts_decorated hrendered]
  | case5 => simp at hc

end Expr

variable {taken : List String} {s s' : Scope}

theorem TableDef.displayName_mem_labels (t : TableDef) : t.displayName ∈ t.symbol.labels :=
  t.symbol.displayName_mem_labels

theorem Expr.Untaken.displayName {q : Query} (h : (Expr.subquery q).Untaken taken) {t : TableDef}
    (ht : t ∈ q.tables) : t.displayName ∉ taken :=
  h _ (List.mem_flatMap.mpr ⟨t, ht, t.displayName_mem_labels⟩)

theorem Scope.Alike.enter (h : Alike taken s s') {q : Query}
    (hq : q.Everywhere (Expr.Untaken taken)) : AlikeWithin taken (q.scopeIn s) (q.scopeIn s') := by
  have hsources : ∀ t ∈ q.sources, t.displayName ∉ taken :=
    fun t ht ↦ hq.here.displayName (List.mem_append_left _ ht)
  have hwritten : ∀ c ∈ q.columnSymbols, ∀ table ∈ c.table?, table ∉ taken := by
    intro c hc table htable
    obtain ⟨e, he, hsymbol⟩ := List.mem_filterMap.mp hc
    obtain ⟨x, hx, hxtable⟩ := Expr.exists_definition?_of_symbol? hsymbol htable
    have hparts : e ∈ (Expr.subquery q).parts := by simp [Expr.parts, Query.parts, he]
    exact hq.of_mem_parts hparts (.columnDef x) hx table (by simp [Expr.names, hxtable])
  exact h.scopeIn hsources hwritten

theorem Expr.leaf?_eq_of_alike {e : Expr} {g : Scope → Except RenderError String}
    (h : Scope.AlikeWithin taken s s') (he : e.Untaken taken) (hg : e.leaf? = some g) :
    g s' = g s := by
  cases e with
  | tableDef t =>
    obtain rfl := Option.some.inj hg
    exact t.text_eq_of_alike h.toAlike (he _ t.displayName_mem_labels)
  | tableRef t =>
    obtain rfl := Option.some.inj hg
    exact t.text_eq_of_alike h.toAlike (he _ List.mem_cons_self)
  | columnDef c =>
    obtain rfl := Option.some.inj hg
    have hname : c.name ∉ taken := he _ List.mem_cons_self
    have halias : ∀ label ∈ c.alias?, label ∉ taken :=
      fun label hlabel ↦ he label (by simp_all [names])
    have htable : ∀ table ∈ c.table?, table.name ∉ taken :=
      fun table htable ↦ he table.name (by simp_all [names])
    exact c.text_eq_of_alike h.toAlike hname halias htable
  | columnRef r =>
    obtain rfl := Option.some.inj hg
    have hname : r.name ∉ taken := he _ List.mem_cons_self
    have htable : ∀ table ∈ r.table?, table.name ∉ taken :=
      fun table htable ↦ he table.name (by simp_all [names])
    exact r.text_eq_of_alike h hname htable
  | position | fragment | literal | nothing =>
    obtain rfl := Option.some.inj hg
    rfl
  | decorated | condition | subquery => simp [leaf?] at hg

namespace Rendering

variable {α β : Type} {r : Rendering α} {f : α → Rendering β}

/-- The rendering gives one result and one list of values in both scopes. -/
def SameIn (s s' : Scope) (r : Rendering α) : Prop :=
  ∃ x vs, r.Gives s x vs ∧ r.Gives s' x vs

namespace SameIn

theorem pure (a : α) : (Pure.pure a : Rendering α).SameIn s s' :=
  ⟨_, _, .pure a, .pure a⟩

theorem throw (e : RenderError) : (MonadExcept.throw e : Rendering α).SameIn s s' :=
  ⟨_, _, .throw e, .throw e⟩

theorem bound (v : Value) : (Rendering.bound v).SameIn s s' :=
  ⟨_, _, .bound v, .bound v⟩

theorem ofScope {g : Scope → Except RenderError α} (h : g s' = g s) :
    (Rendering.ofScope g).SameIn s s' :=
  ⟨g s, [], .ofScope g, h ▸ .ofScope g⟩

theorem bind (hr : r.SameIn s s') (hf : ∀ a, (f a).SameIn s s') : (r >>= f).SameIn s s' := by
  obtain ⟨x, vs, hs, hs'⟩ := hr
  cases x with
  | error e => exact ⟨_, _, hs.bind_error, hs'.bind_error⟩
  | ok a =>
    obtain ⟨y, ws, hfs, hfs'⟩ := hf a
    exact ⟨_, _, hs.bind hfs, hs'.bind hfs'⟩

theorem nested {q : Query} (hr : r.SameIn (q.scopeIn s) (q.scopeIn s')) :
    (Rendering.nested q.enter r).SameIn s s' := by
  obtain ⟨x, vs, hs, hs'⟩ := hr
  cases x with
  | error e => exact ⟨_, _, hs.nested_error, hs'.nested_error⟩
  | ok a => exact ⟨_, _, hs.nested, hs'.nested⟩

end SameIn
end Rendering

open Rendering

/-- Without functions of the caller, what is rendered by names that are not taken is the same in two
scopes that are alike. -/
theorem sameIn_compositional (taken : List String) :
    Compositional .bindings (fun e ↦ e.appliesCustom = false ∧ e.Untaken taken) fun s _ r _ ↦
      ∀ s', Scope.AlikeWithin taken s s' → r.SameIn s s' where
  pure _ a _ _ := .pure a
  bind hr hf s' h := (hr s' h).bind fun a ↦ hf a s' h
  nested hq hr s' h := .nested (hr _ (h.toAlike.enter fun x hx ↦ (hq x hx).2))
  leaf _ he hg s' h := .ofScope (Expr.leaf?_eq_of_alike h he.2 hg)
  table {_ t} _ hq ht s' h := .ofScope (t.text_eq_of_alike h.toAlike (hq.2.displayName ht))
  havings _ _ _ _ := .throw havingFailure
  bound _ v _ _ := .bound v
  rebound _ hr s' h := (hr s' h).bind fun _ ↦ .bound _
  transformed _ he := by simp [Expr.appliesCustom] at he

namespace Query

variable {q : Query}

theorem renderClauses_sameIn (hfree : q.CustomFree) (hq : q.Everywhere (Expr.Untaken s.labels)) :
    q.renderClauses.SameIn (q.scopeIn .empty) (q.scopeIn s) := by
  have hok : q.Everywhere fun e ↦ e.appliesCustom = false ∧ e.Untaken s.labels :=
    fun x hx ↦ ⟨hfree x hx, hq x hx⟩
  exact (sameIn_compositional s.labels).renderClauses hok .empty _
    (s.alike_empty.enter hq)

variable {vs : List Value}

theorem build_of_clauses {sql : String}
    (h : q.renderClauses.Gives (q.scopeIn .empty) (.ok sql) vs) : q.build = .ok (sql, vs) := by
  have hnested : q.renderNested.Gives .empty (.ok sql) vs := q.renderNested_eq_nested ▸ h.nested
  exact build_of_gives hnested

theorem build_of_clauses_error {e : RenderError}
    (h : q.renderClauses.Gives (q.scopeIn .empty) (.error e) vs) :
    q.build = .error (Error.ofRenderError e) := by
  have hnested : q.renderNested.Gives .empty (.error e) [] :=
    q.renderNested_eq_nested ▸ h.nested_error
  exact build_of_gives hnested

theorem subquery_of_clauses {sql : String}
    (h : q.renderClauses.Gives (q.scopeIn s) (.ok sql) vs) :
    (Expr.subquery q).render.Gives s (.ok (Text.parenthesized sql)) vs := by
  rw [Expr.render, q.renderNested_eq_nested]
  exact h.nested.map Text.parenthesized

theorem subquery_of_clauses_error {e : RenderError}
    (h : q.renderClauses.Gives (q.scopeIn s) (.error e) vs) :
    (Expr.subquery q).render.Gives s (.error e) [] := by
  rw [Expr.render, q.renderNested_eq_nested]
  exact h.nested_error.bind_error

end Query

/-- In a domain in which no visible table or column goes by a name that is used anywhere in a query,
the query has as an operand the text that it has alone, between parentheses, and binds the same
values; or it fails for the same cause and leaves the domain as it was. -/
theorem render_subquery_eq_build (q : Query) (d : Domain) (hfree : q.CustomFree)
    (hq : q.Everywhere fun e ↦ ∀ n ∈ e.names, n ∉ d.scope.labels) :
    (∀ sql vs, q.build = .ok (sql, vs) →
      (Expr.subquery q).render.outcome d = (.ok (Text.parenthesized sql), d.bindAll vs)) ∧
    ∀ e, q.build = .error e → ∃ cause, e = Error.ofRenderError cause ∧
      (Expr.subquery q).render.outcome d = (.error cause, d) := by
  obtain ⟨x, vs, halone, hnested⟩ := Query.renderClauses_sameIn hfree hq
  cases x with
  | error cause =>
    rw [Query.build_of_clauses_error halone]
    refine ⟨by simp, ?_⟩
    rintro _ ⟨⟩
    exact ⟨cause, rfl, Query.subquery_of_clauses_error hnested d rfl⟩
  | ok text =>
    rw [Query.build_of_clauses halone]
    refine ⟨?_, by simp⟩
    rintro _ _ ⟨⟩
    exact Query.subquery_of_clauses hnested d rfl

/-- The accounts stand in a query over customers. -/
theorem accounts_subquery_eq_build :
    let q := Query.accounts (.text "open") (.int64 5)
    let d := Domain.fresh.nest [⟨"customers", some "c"⟩] [] [⟨some "email", none, some "c"⟩]
    (q.Everywhere fun e ↦ ∀ n ∈ e.names, n ∉ d.scope.labels) ∧
      ∃ sql, q.build = .ok (sql, [.text "open", .int64 5]) ∧
        (Expr.subquery q).render.outcome d =
          (.ok (Text.parenthesized sql), d.bindAll [.text "open", .int64 5]) := by
  intro q d
  have hfree : q.CustomFree := by decide
  have hnames : q.Everywhere fun e ↦ ∀ n ∈ e.names, n ∉ d.scope.labels := by decide
  obtain ⟨sql, hbuild⟩ : ∃ sql, q.build = .ok (sql, [.text "open", .int64 5]) := ⟨_, rfl⟩
  exact ⟨hnames, sql, hbuild, (render_subquery_eq_build q d hfree hnames).1 sql _ hbuild⟩

end ScopedSelect
