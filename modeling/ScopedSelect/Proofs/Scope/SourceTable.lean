import Mathlib.Data.Finset.Card
import ScopedSelect.Proofs.Scope.Unqualified

/-!
# What the FROM table decides

The visible columns of one bare name may have been written with several tables.  A reference without
a table then means the column of the FROM table, if there is one FROM table and no other table
answers to what that is shown as; with no FROM table or with several it is refused.  Only the set of
the written tables matters, not which columns they were written with, how often, or at which level
(`contested_renders`).
-/

namespace ScopedSelect

theorem nodup_eraseDups (names : List String) : names.eraseDups.Nodup := by
  cases names with
  | nil => simp
  | cons name rest =>
    rw [List.eraseDups_cons, List.nodup_cons]
    exact ⟨by simp, nodup_eraseDups _⟩
termination_by names.length
decreasing_by exact Nat.lt_succ_of_le (List.length_filter_le _ rest)

theorem length_eraseDups_eq_card (names : List String) :
    names.eraseDups.length = names.toFinset.card := by
  have hsame : names.eraseDups.toFinset = names.toFinset := by
    ext name
    simp
  rw [← hsame, List.toFinset_card_of_nodup (nodup_eraseDups names)]

namespace Scope

/-- The tables that the visible columns of a bare name were written with. -/
def qualifiers (s : Scope) (name : String) : Finset String :=
  ((s.columns.filter (·.name? = some name)).filterMap ColumnSymbol.table?).toFinset

/-- A name that is no visible alias is the bare name of columns that were written with several
tables. -/
structure Contested (s : Scope) (name : String) : Prop where
  alias_ne : ∀ c ∈ s.columns, c.alias? ≠ some name
  several : 1 < (s.qualifiers name).card

def SourcesVisible (s : Scope) : Prop :=
  ∀ t ∈ s.sources, t ∈ s.tables

variable {s s' : Scope} {name table : String}

theorem mem_qualifiers :
    table ∈ s.qualifiers name ↔ ∃ c ∈ s.columns, c.name? = some name ∧ c.table? = some table := by
  simp only [qualifiers, List.mem_toFinset, List.mem_filterMap, List.mem_filter, decide_eq_true_eq,
    and_assoc]

theorem qualifiers_congr
    (h : ∀ c : ColumnSymbol, c.name? = some name → (c ∈ s'.columns ↔ c ∈ s.columns)) :
    s'.qualifiers name = s.qualifiers name := by
  ext table
  simp only [mem_qualifiers]
  constructor
  · rintro ⟨c, hc, hname, htable⟩
    exact ⟨c, (h c hname).mp hc, hname, htable⟩
  · rintro ⟨c, hc, hname, htable⟩
    exact ⟨c, (h c hname).mpr hc, hname, htable⟩

theorem sourcesVisible_scopeIn (s : Scope) (q : Query) : (q.scopeIn s).SourcesVisible :=
  fun _ ht ↦ List.mem_append_left _ (List.mem_append_left _ ht)

end Scope

namespace ColumnRef

variable {s s' : Scope} {name : String}

/-- If no alias is involved, the tables that count as written are those of the columns. -/
theorem length_writtenTables (h : ∀ c ∈ s.columns, c.alias? ≠ some name) :
    (writtenTables ⟨name, none⟩ s).length = (s.qualifiers name).card := by
  have hmeans (c : ColumnSymbol) (hc : c ∈ s.columns) :
      means ⟨name, none⟩ c = decide (c.name? = some name) := by
    have halias := h c hc
    rw [Bool.eq_iff_iff, means_iff]
    simp [ColumnSymbol.Bears, halias]
  rw [writtenTables, length_eraseDups_eq_card, List.filter_congr hmeans, Scope.qualifiers]

theorem severalTables_of_contested (h : s.Contested name) : ¬s.OneTable name := by
  intro hone
  have hlength := length_writtenTables_le_one_iff (r := ⟨name, none⟩).mpr hone
  rw [length_writtenTables h.alias_ne] at hlength
  exact absurd h.several (by omega)

theorem text_of_contested_of_source {only : TableSymbol} (h : s.Contested name)
    (hsources : s.sources = [only]) :
    (⟨name, none⟩ : ColumnRef).text s = (do
      TableRef.check ⟨only.displayName⟩ s
      qualifiedText ⟨name, none⟩ ⟨only.displayName⟩ s) := by
  rw [text_of_source (severalTables_of_contested h) hsources, text_of_table_of_alias_ne h.alias_ne]

theorem text_of_contested_of_sources (h : s.Contested name)
    (hsources : ∀ only, s.sources ≠ [only]) :
    (⟨name, none⟩ : ColumnRef).text s =
      .error (.ambiguousReference name (s.qualifiers name).card) := by
  rw [(text_of_sources_ne (severalTables_of_contested h) hsources).2,
    length_writtenTables h.alias_ne]

/-- Of the columns, only those of the name matter, and they matter as a set. -/
theorem text_congr_of_contested (h : s.Contested name) (h' : s'.Contested name)
    (htables : s'.tables = s.tables) (hsources : s'.sources = s.sources)
    (hcolumns : ∀ c : ColumnSymbol, c.name? = some name → (c ∈ s'.columns ↔ c ∈ s.columns)) :
    (⟨name, none⟩ : ColumnRef).text s' = (⟨name, none⟩ : ColumnRef).text s := by
  by_cases hsource : ∃ only, s.sources = [only]
  · obtain ⟨only, honly⟩ := hsource
    rw [text_of_contested_of_source h honly,
      text_of_contested_of_source h' (hsources.trans honly)]
    simp only [TableRef.check, qualifiedText, Scope.findTable?, htables]
  · have hnone (only : TableSymbol) : s.sources ≠ [only] := fun honly ↦ hsource ⟨only, honly⟩
    rw [text_of_contested_of_sources h hnone, text_of_contested_of_sources h' (hsources ▸ hnone),
      Scope.qualifiers_congr hcolumns]

end ColumnRef

/-- A contested name means the column of the only FROM table, if no second table answers to what
that is shown as.  Without a single FROM table the reference is refused, for as many tables as the
columns were written with.  The result is the same for any other columns of the name that were
written with the same tables: in another order, several times, or at another level. -/
theorem contested_renders (name : String) (d : Domain) (h : d.scope.Contested name) :
    (∀ only ∈ d.scope.tables, d.scope.sources = [only] →
      AtMostOne (·.Answers only.displayName) d.scope.tables →
        (Expr.columnRef ⟨name, none⟩).render.outcome d =
          (.ok (only.displayName ++ "." ++ name), d)) ∧
    ((∀ only, d.scope.sources ≠ [only]) →
      (Expr.columnRef ⟨name, none⟩).render.outcome d =
        (.error (.ambiguousReference name (d.scope.qualifiers name).card), d)) ∧
    ∀ d' : Domain, d'.scope.Contested name → d'.scope.tables = d.scope.tables →
      d'.scope.sources = d.scope.sources →
      (∀ c : ColumnSymbol, c.name? = some name →
        (c ∈ d'.scope.columns ↔ c ∈ d.scope.columns)) →
      ((Expr.columnRef ⟨name, none⟩).render.outcome d').1 =
        ((Expr.columnRef ⟨name, none⟩).render.outcome d).1 := by
  simp only [Expr.render, Rendering.outcome_ofScope]
  refine ⟨fun only honly hsources hanswers ↦ ?_, fun hsources ↦ ?_, ?_⟩
  · have hcheck : TableRef.check ⟨only.displayName⟩ d.scope = .ok () :=
      TableRef.check_eq_ok_iff.mpr hanswers
    rw [ColumnRef.text_of_contested_of_source h hsources, hcheck]
    exact congrArg (·, d) (ColumnRef.qualifiedText_displayName honly hanswers)
  · rw [ColumnRef.text_of_contested_of_sources h hsources]
  · exact fun d' h' htables hsources hcolumns ↦
      ColumnRef.text_congr_of_contested h h' htables hsources hcolumns

/-- The accounts and their orders, both with their states. -/
def Query.statesOfAccounts : Query :=
  { Query.empty with
    select := [.columnDef ⟨"state", some ⟨"a"⟩, some "account"⟩,
      .columnDef ⟨"state", some ⟨"o"⟩, some "order"⟩]
    sources := [⟨"accounts", some "a"⟩]
    joins := [⟨⟨"orders", some "o"⟩, .plain, none⟩] }

/-- The state is that of the account, however often and in whatever order the states are selected.
With both tables in FROM it is ambiguous. -/
theorem states_contested_renders :
    let d := Query.statesOfAccounts.enter .fresh
    let repeated := { Query.statesOfAccounts with
      select := Query.statesOfAccounts.select.reverse ++
        Query.statesOfAccounts.select }.enter .fresh
    let paired := { Query.statesOfAccounts with
      sources := [⟨"accounts", some "a"⟩, ⟨"orders", some "o"⟩]
      joins := [] }.enter .fresh
    (d.scope.Contested "state" ∧ repeated.scope.Contested "state" ∧
      (Expr.columnRef ⟨"state", none⟩).render.outcome d = (.ok ("a" ++ "." ++ "state"), d) ∧
      ((Expr.columnRef ⟨"state", none⟩).render.outcome repeated).1 =
        ((Expr.columnRef ⟨"state", none⟩).render.outcome d).1) ∧
    paired.scope.Contested "state" ∧
      (Expr.columnRef ⟨"state", none⟩).render.outcome paired =
        (.error (.ambiguousReference "state" 2), paired) := by
  intro d repeated paired
  have hd : d.scope.Contested "state" := ⟨by decide, by decide⟩
  have hrepeated : repeated.scope.Contested "state" := ⟨by decide, by decide⟩
  have hpaired : paired.scope.Contested "state" := ⟨by decide, by decide⟩
  have hvisible : d.scope.SourcesVisible := Scope.sourcesVisible_scopeIn .empty _
  have hcolumns : repeated.scope.columns = d.scope.columns.reverse ++ d.scope.columns := rfl
  have hsources : paired.scope.sources = [⟨"accounts", some "a"⟩, ⟨"orders", some "o"⟩] := rfl
  obtain ⟨hdecided, -, hsame⟩ := contested_renders "state" d hd
  refine ⟨⟨hd, hrepeated, ?_, ?_⟩, hpaired, ?_⟩
  · exact hdecided ⟨"accounts", some "a"⟩ (hvisible _ List.mem_cons_self) rfl (by decide)
  · exact hsame repeated hrepeated rfl rfl fun c _ ↦ by simp [hcolumns]
  · exact (contested_renders "state" paired hpaired).2.1 (by simp [hsources])

end ScopedSelect
