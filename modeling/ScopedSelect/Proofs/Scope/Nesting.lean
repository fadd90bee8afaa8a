import ScopedSelect.Proofs.Scope.Hygiene

/-!
# References from within nested queries

The tables of a nested query come before the inherited ones, and a table is looked up by the first
that answers.  It is counted over all of them before that, though, and nothing that was visible goes
away.  So a reference with a table means the same table at every depth, or several tables compete
for it and it is refused; no query in between can capture it (`text_within`).
-/

namespace ScopedSelect

section Sublists

variable {α : Type} {p : α → Bool} {xs ys : List α} {x : α}

/-- What a search finds first is found in a longer list, if that has no second thing to find. -/
theorem find?_eq_of_sublist (h : xs.Sublist ys) (hcount : ys.countP p ≤ 1)
    (hx : xs.find? p = some x) : ys.find? p = some x := by
  have hfilter : (xs.filter p).Sublist (ys.filter p) := h.filter p
  have hhead : (xs.filter p).head? = some x := by rw [List.head?_filter, hx]
  have hnonempty : 0 < (xs.filter p).length := by
    rw [List.length_pos_iff]
    intro hnil
    simp [hnil] at hhead
  have hlength : (ys.filter p).length ≤ 1 := by
    rw [← List.countP_eq_length_filter]
    exact hcount
  have heq : xs.filter p = ys.filter p := hfilter.eq_of_length_le (by omega)
  rw [← List.head?_filter, ← heq, hhead]

end Sublists

namespace Scope

/-- Whatever is visible in the first scope is visible in the second, in the same order. -/
structure StaysVisible (s s' : Scope) : Prop where
  tables : s.tables.Sublist s'.tables
  columns : s.columns.Sublist s'.columns

variable {s s' s'' : Scope}

theorem StaysVisible.refl (s : Scope) : s.StaysVisible s where
  tables := List.Sublist.refl _
  columns := List.Sublist.refl _

theorem StaysVisible.trans (h : s.StaysVisible s') (h' : s'.StaysVisible s'') :
    s.StaysVisible s'' where
  tables := h.tables.trans h'.tables
  columns := h.columns.trans h'.columns

theorem staysVisible_scopeIn (s : Scope) (q : Query) : s.StaysVisible (q.scopeIn s) where
  tables := by
    have hinherited : s.tables.Sublist (q.sources.map TableDef.symbol ++ s.tables) :=
      List.sublist_append_right _ _
    exact hinherited.trans (List.sublist_append_left _ _)
  columns := List.sublist_append_left _ _

/-- The scope of the innermost of several queries, each of which is nested in the one before it. -/
def within (s : Scope) (chain : List Query) : Scope :=
  chain.foldl (fun s q ↦ q.scopeIn s) s

/-- By induction on the chain: each level of nesting only adds to what is visible. -/
theorem staysVisible_within (s : Scope) (chain : List Query) : s.StaysVisible (s.within chain) := by
  induction chain generalizing s with
  | nil => exact .refl s
  | cons q chain ih => exact (staysVisible_scopeIn s q).trans (ih (q.scopeIn s))

end Scope

theorem Expr.StandsIn.exists_chain {x e : Expr} {s s' : Scope} (h : x.StandsIn s' s e) :
    ∃ chain, s' = s.within chain := by
  induction h with
  | self => exact ⟨[], rfl⟩
  | @part s y e hy _ ih =>
    obtain ⟨chain, rfl⟩ := ih
    cases e with
    | subquery q => exact ⟨q :: chain, rfl⟩
    | _ => exact ⟨chain, rfl⟩

namespace ColumnRef

variable {name text : String} {table : TableRef} {s s' : Scope}

theorem eq_of_text_of_table {found : TableSymbol} (hfound : s.findTable? table.name = some found)
    (htext : (⟨name, some table⟩ : ColumnRef).text s = .ok text) :
    text = found.displayName ++ "." ++ name := by
  rw [text_of_table] at htext
  simp only [bind, Except.bind, qualifiedText, hfound] at htext
  split at htext
  · simp at htext
  · split at htext
    · simp at htext
    · exact (Except.ok.inj htext).symm

/-- A reference with a table that has a text has the same text in a scope where more is visible, or
it is ambiguous there: by its table, or else by its column. -/
theorem text_of_staysVisible (h : s.StaysVisible s')
    (htext : (⟨name, some table⟩ : ColumnRef).text s = .ok text) :
    (⟨name, some table⟩ : ColumnRef).text s' = .ok text ∨
      ∃ label ∈ [table.name, name], ∃ count, 1 < count ∧
        (⟨name, some table⟩ : ColumnRef).text s' = .error (.ambiguousReference label count) := by
  obtain ⟨answers, -⟩ := exists_text_of_table_iff.mp ⟨text, htext⟩
  obtain ⟨found, hfound⟩ := Scope.exists_findTable?_iff.mpr answers.2
  have hshown : text = found.displayName ++ "." ++ name := eq_of_text_of_table hfound htext
  simp only [text_of_table, bind, Except.bind]
  by_cases htables : 1 < s'.tables.countP (·.answersTo table.name)
  · have hcheck : table.check s' = .error (.ambiguousReference table.name
        (s'.tables.countP (·.answersTo table.name))) := atMostOne_of_lt htables
    exact .inr ⟨table.name, by simp, _, htables, by rw [hcheck]⟩
  have hcheck : table.check s' = .ok () := atMostOne_eq_ok_iff.mpr (by omega)
  by_cases hcolumns : 1 < s'.columns.countP (competes ⟨name, some table⟩ true)
  · exact .inr ⟨name, by simp, _, hcolumns, by rw [hcheck, atMostOne_of_lt hcolumns]⟩
  have hunique : atMostOne (s'.columns.countP (competes ⟨name, some table⟩ true))
      (.ambiguousReference name) = .ok () := atMostOne_eq_ok_iff.mpr (by omega)
  have hsame : s'.findTable? table.name = some found :=
    find?_eq_of_sublist h.tables (by omega) hfound
  left
  rw [hcheck, hunique, hshown]
  simp only [qualifiedText, hsame]

end ColumnRef

/-- In a domain, the reference has a certain text, or it fails because its table or its column is
ambiguous. -/
def ColumnRef.HasTextOrIsAmbiguous (r : ColumnRef) (text : String) (d : Domain) : Prop :=
  ((Expr.columnRef r).render.outcome d).1 = .ok text ∨
    ∃ label count, (r.table?.map TableRef.name = some label ∨ r.name = label) ∧ 1 < count ∧
      ((Expr.columnRef r).render.outcome d).1 = .error (.ambiguousReference label count)

theorem ColumnRef.hasTextOrIsAmbiguous_of_staysVisible {name text : String} {table : TableRef}
    {d inner : Domain} (hstays : d.scope.StaysVisible inner.scope)
    (h : ((Expr.columnRef ⟨name, some table⟩).render.outcome d).1 = .ok text) :
    (⟨name, some table⟩ : ColumnRef).HasTextOrIsAmbiguous text inner := by
  rw [Expr.render, Rendering.outcome_ofScope] at h
  rw [HasTextOrIsAmbiguous, Expr.render, Rendering.outcome_ofScope]
  rcases text_of_staysVisible hstays h with hsame | ⟨label, hlabel, count, hcount, hfails⟩
  · exact .inl hsame
  · have hnames : table.name = label ∨ name = label := by
      simpa [eq_comm] using hlabel
    exact .inr ⟨label, count, by simpa using hnames, hcount, hfails⟩

/-- A reference with a table that has a text in a domain has the same text within any chain of
queries that are nested there, whatever their tables and columns are, or it fails there because it
is ambiguous.  The same is true wherever it stands in an expression. -/
theorem text_within (name text : String) (table : TableRef) (d : Domain)
    (h : ((Expr.columnRef ⟨name, some table⟩).render.outcome d).1 = .ok text) :
    (∀ (chain : List Query) (inner : Domain), inner.scope = d.scope.within chain →
      (⟨name, some table⟩ : ColumnRef).HasTextOrIsAmbiguous text inner) ∧
    ∀ (e : Expr) (s : Scope), (Expr.columnRef ⟨name, some table⟩).StandsIn s d.scope e →
      ∀ inner : Domain, inner.scope = s →
        (⟨name, some table⟩ : ColumnRef).HasTextOrIsAmbiguous text inner := by
  have hchain (chain : List Query) (inner : Domain) (hinner : inner.scope = d.scope.within chain) :
      (⟨name, some table⟩ : ColumnRef).HasTextOrIsAmbiguous text inner := by
    have hstays : d.scope.StaysVisible inner.scope := hinner ▸ d.scope.staysVisible_within chain
    exact ColumnRef.hasTextOrIsAmbiguous_of_staysVisible hstays h
  refine ⟨hchain, ?_⟩
  intro e s hstands inner hinner
  obtain ⟨chain, rfl⟩ := hstands.exists_chain
  exact hchain chain inner hinner

/-- The number of an account is found from within its orders.  It is not found from within further
accounts in there, although these are the first table of that name. -/
theorem accountNumber_within :
    let number : ColumnRef := ⟨"number", some ⟨"accounts"⟩⟩
    let d := Query.accountsWithOrders.enter .fresh
    let orders := Query.ordersOfAccount.enter d
    ((Expr.columnRef number).render.outcome d).1 = .ok "a.number" ∧
      orders.scope = d.scope.within [.ordersOfAccount] ∧
      number.HasTextOrIsAmbiguous "a.number" orders ∧
      ∃ label count, 1 < count ∧
        ((Expr.columnRef number).render.outcome (Query.accountsWithOrders.enter orders)).1 =
          .error (.ambiguousReference label count) := by
  intro number d orders
  have hnumber : ((Expr.columnRef number).render.outcome d).1 = .ok "a.number" := rfl
  have hchain := (text_within "number" "a.number" ⟨"accounts"⟩ d hnumber).1
  refine ⟨hnumber, rfl, hchain [.ordersOfAccount] orders rfl, ?_⟩
  rcases hchain [.ordersOfAccount, .accountsWithOrders] (Query.accountsWithOrders.enter orders) rfl
    with hsame | hambiguous
  · cases hsame
  · obtain ⟨label, count, -, hcount, hfails⟩ := hambiguous
    exact ⟨label, count, hcount, hfails⟩

end ScopedSelect
