import ScopedSelect.Proofs.Scope.WellScoped

/-!
# When a name has a text

Each kind of name is checked on its own: a definition or a reference has a text in a scope exactly
if it is used properly there.
-/

namespace ScopedSelect

theorem exists_check_bind_eq_ok {ε β : Type} {check : Except ε Unit} {f : Unit → Except ε β} :
    (∃ b, (check >>= f) = .ok b) ↔ check = .ok () ∧ ∃ b, f () = .ok b := by
  cases check <;> simp [bind, Except.bind]

theorem atMostOne_of_lt {count : Nat} {failure : Nat → RenderError} (h : 1 < count) :
    atMostOne count failure = .error (failure count) :=
  if_pos h

theorem atMostOne_countP_eq_ok_iff {α : Type} {xs : List α} {p : α → Bool}
    {failure : Nat → RenderError} :
    atMostOne (xs.countP p) failure = .ok () ↔ AtMostOne (fun x ↦ p x = true) xs := by
  rw [atMostOne_eq_ok_iff, countP_le_one_iff]

theorem TableSymbol.answersTo_iff {t : TableSymbol} {reference : String} :
    t.answersTo reference = true ↔ t.Answers reference := by
  simp [answersTo, Answers]

theorem Scope.exists_findTable?_iff {s : Scope} {reference : String} :
    (∃ t, s.findTable? reference = some t) ↔ ∃ t ∈ s.tables, t.Answers reference := by
  rw [← Option.isSome_iff_exists, Scope.findTable?, List.find?_isSome]
  simp only [TableSymbol.answersTo_iff]

namespace TableDef

theorem exists_text_iff {t : TableDef} {s : Scope} :
    (∃ text, t.text s = .ok text) ↔ t.WellScoped s := by
  rw [text, exists_check_bind_eq_ok, atMostOne_countP_eq_ok_iff]
  simp [WellScoped, pure, Except.pure]

end TableDef

namespace TableRef

theorem check_eq_ok_iff {r : TableRef} {s : Scope} : r.check s = .ok () ↔ r.WellScoped s := by
  rw [check, atMostOne_countP_eq_ok_iff]
  exact AtMostOne.congr fun _ ↦ TableSymbol.answersTo_iff

theorem exists_text_iff {r : TableRef} {s : Scope} :
    (∃ text, r.text s = .ok text) ↔ r.WellScoped s := by
  rw [text, exists_check_bind_eq_ok, check_eq_ok_iff]
  simp [pure, Except.pure]

end TableRef

theorem checkQualifier_eq_ok_iff {qualifier : Option TableRef} {s : Scope} :
    checkQualifier qualifier s = .ok () ↔ ∀ t ∈ qualifier, t.WellScoped s := by
  cases qualifier <;> simp [checkQualifier, TableRef.check_eq_ok_iff]

namespace ColumnDef

theorem clashesWith_iff {c : ColumnDef} {x : ColumnSymbol} :
    c.clashesWith x = true ↔
      x.displayName? = some c.displayName ∨ c.table? = none ∧ x.name? = some c.name := by
  simp [clashesWith]

theorem exists_text_iff {c : ColumnDef} {s : Scope} :
    (∃ text, c.text s = .ok text) ↔ c.WellScoped s := by
  rw [text, exists_check_bind_eq_ok, exists_check_bind_eq_ok, checkQualifier_eq_ok_iff,
    atMostOne_countP_eq_ok_iff]
  simp only [clashesWith_iff, pure, Except.pure, Except.ok.injEq, exists_eq', and_true]
  constructor
  · rintro ⟨table, column⟩
    exact ⟨table, column⟩
  · rintro ⟨table, column⟩
    exact ⟨table, column⟩

end ColumnDef

namespace ColumnRef

variable {name : String} {s : Scope}

theorem means_iff {r : ColumnRef} {c : ColumnSymbol} : r.means c = true ↔ c.Bears r.name := by
  simp [means, ColumnSymbol.Bears]

theorem exists_qualifiedText_iff {r : ColumnRef} {table : TableRef} :
    (∃ text, r.qualifiedText table s = .ok text) ↔ ∃ t ∈ s.tables, t.Answers table.name := by
  rw [← Scope.exists_findTable?_iff, qualifiedText]
  cases s.findTable? table.name <;> simp

/-- If no second table answers to what a visible table is shown as, it is this table that stands
before a column. -/
theorem qualifiedText_displayName {r : ColumnRef} {t : TableSymbol} (ht : t ∈ s.tables)
    (h : AtMostOne (·.Answers t.displayName) s.tables) :
    r.qualifiedText ⟨t.displayName⟩ s = .ok (t.displayName ++ "." ++ r.name) := by
  have hself : t.Answers t.displayName := TableSymbol.answersTo_iff.mp t.answersTo_displayName
  obtain ⟨found, hfound⟩ := Scope.exists_findTable?_iff.mpr ⟨t, ht, hself⟩
  obtain ⟨hmem, hanswers⟩ := Scope.findTable?_eq_some hfound
  obtain rfl : found = t := h.eq_of_mem hmem ht (TableSymbol.answersTo_iff.mp hanswers) hself
  rw [qualifiedText, hfound]

/-- Nothing is left of a list without its duplicates if all of its members are the same. -/
theorem length_eraseDups_le_one_iff {l : List String} :
    l.eraseDups.length ≤ 1 ↔ ∀ a ∈ l, ∀ b ∈ l, a = b := by
  cases l with
  | nil => simp
  | cons a as =>
    have hlength (n : Nat) : n + 1 ≤ 1 ↔ n = 0 := by omega
    rw [List.eraseDups_cons, List.length_cons, hlength, List.length_eq_zero_iff,
      List.eq_nil_iff_forall_not_mem]
    simp only [List.mem_eraseDups, List.mem_filter]
    constructor
    · intro h
      have hall (b : String) (hb : b ∈ a :: as) : b = a := by
        rcases List.mem_cons.mp hb with rfl | hb
        · rfl
        · simpa [hb] using h b
      exact fun b hb c hc ↦ (hall b hb).trans (hall c hc).symm
    · rintro h b ⟨hb, hne⟩
      simp [h b (List.mem_cons_of_mem a hb) a List.mem_cons_self] at hne

/-- Several tables count as written exactly if the columns that may be meant do not agree. -/
theorem length_writtenTables_le_one_iff {r : ColumnRef} :
    (r.writtenTables s).length ≤ 1 ↔ s.OneTable r.name := by
  rw [writtenTables, length_eraseDups_le_one_iff]
  simp only [List.mem_filterMap, List.mem_filter, means_iff]
  constructor
  · intro h c hc c' hc' hb hb' t ht t' ht'
    exact h t ⟨c, ⟨hc, hb⟩, ht⟩ t' ⟨c', ⟨hc', hb'⟩, ht'⟩
  · rintro h t ⟨c, ⟨hc, hb⟩, ht⟩ t' ⟨c', ⟨hc', hb'⟩, ht'⟩
    exact h c hc c' hc' hb hb' t ht t' ht'

theorem competes_unqualified_iff {r : ColumnRef} {c : ColumnSymbol} :
    r.competes false c = true ↔ c.Bears r.name := by
  simp [competes, ColumnSymbol.Bears]

theorem competes_qualified_iff {r : ColumnRef} {c : ColumnSymbol} :
    r.competes true c = true ↔ c.alias? = some r.name := by
  simp [competes]

theorem text_of_table (table : TableRef) :
    (⟨name, some table⟩ : ColumnRef).text s = (do
      table.check s
      atMostOne (s.columns.countP (competes ⟨name, some table⟩ true)) (.ambiguousReference name)
      qualifiedText ⟨name, some table⟩ table s) := rfl

theorem exists_text_of_table_iff {table : TableRef} :
    (∃ text, (⟨name, some table⟩ : ColumnRef).text s = .ok text) ↔
      ExactlyOne (·.Answers table.name) s.tables ∧ AtMostOne (·.alias? = some name) s.columns := by
  calc
    _ ↔ table.WellScoped s ∧ AtMostOne (competes ⟨name, some table⟩ true · = true) s.columns ∧
        ∃ text, qualifiedText ⟨name, some table⟩ table s = .ok text := by
      rw [text_of_table, exists_check_bind_eq_ok, exists_check_bind_eq_ok,
        TableRef.check_eq_ok_iff, atMostOne_countP_eq_ok_iff]
    _ ↔ AtMostOne (·.Answers table.name) s.tables ∧ AtMostOne (·.alias? = some name) s.columns ∧
        ∃ t ∈ s.tables, t.Answers table.name := by
      rw [AtMostOne.congr fun _ ↦ competes_qualified_iff, exists_qualifiedText_iff]
      rfl
    _ ↔ ExactlyOne (·.Answers table.name) s.tables ∧ AtMostOne (·.alias? = some name) s.columns :=
      ⟨fun ⟨once, column, answers⟩ ↦ ⟨⟨once, answers⟩, column⟩,
        fun ⟨⟨once, answers⟩, column⟩ ↦ ⟨once, column, answers⟩⟩

/-- If one column at most has the name as its alias, a reference with a table is a matter of the
table. -/
theorem text_of_table_of_atMostOne {table : TableRef}
    (h : AtMostOne (·.alias? = some name) s.columns) :
    (⟨name, some table⟩ : ColumnRef).text s = (do
      table.check s
      qualifiedText ⟨name, none⟩ table s) := by
  have hunique : atMostOne (s.columns.countP (competes ⟨name, some table⟩ true))
      (.ambiguousReference name) = .ok () := by
    rw [atMostOne_countP_eq_ok_iff, AtMostOne.congr fun _ ↦ competes_qualified_iff]
    exact h
  rw [text_of_table, hunique]
  rfl

theorem text_of_source {only : TableSymbol} (hseveral : ¬s.OneTable name)
    (hsources : s.sources = [only]) :
    (⟨name, none⟩ : ColumnRef).text s =
      (⟨name, some ⟨only.displayName⟩⟩ : ColumnRef).text s := by
  have hlength : ¬(writtenTables ⟨name, none⟩ s).length ≤ 1 :=
    fun h ↦ hseveral (length_writtenTables_le_one_iff.mp h)
  simp only [text, resolve, if_neg hlength, hsources]
  rfl

/-- Without a table and without several to choose from, the table comes from the column. -/
theorem text_of_oneTable (hone : s.OneTable name) :
    (⟨name, none⟩ : ColumnRef).text s = (do
      atMostOne (s.columns.countP (competes ⟨name, none⟩ false)) (.ambiguousReference name)
      match inherited? ⟨name, none⟩ s with
      | some table => qualifiedText ⟨name, none⟩ table s
      | none => return name) := by
  have hlength : (writtenTables ⟨name, none⟩ s).length ≤ 1 :=
    length_writtenTables_le_one_iff.mpr hone
  simp only [text, resolve, if_pos hlength]
  rfl

theorem find?_means_eq_some {c : ColumnSymbol} (honce : AtMostOne (·.Bears name) s.columns)
    (hc : c ∈ s.columns) (hbears : c.Bears name) :
    s.columns.find? (means ⟨name, none⟩) = some c := by
  obtain ⟨found, hfound⟩ := Option.isSome_iff_exists.mp
    (List.find?_isSome.mpr ⟨c, hc, (means_iff (r := ⟨name, none⟩)).mpr hbears⟩)
  have hmem : found ∈ s.columns := List.mem_of_find?_eq_some hfound
  have hmeant : found.Bears name := means_iff.mp (List.find?_some hfound)
  rw [hfound, honce.eq_of_mem hmem hc hmeant hbears]

theorem inherited?_of_mem {c : ColumnSymbol} (honce : AtMostOne (·.Bears name) s.columns)
    (hc : c ∈ s.columns) (hbears : c.Bears name) :
    inherited? ⟨name, none⟩ s =
      if c.alias? = some name then none else c.table?.map TableRef.mk := by
  simp only [inherited?, find?_means_eq_some honce hc hbears]

/-- If one column at most is meant, it is the one whose table is taken over. -/
theorem inherited?_eq_some_iff {table : TableRef} (honce : AtMostOne (·.Bears name) s.columns) :
    inherited? ⟨name, none⟩ s = some table ↔
      ∃ c ∈ s.columns, c.Bears name ∧ c.alias? ≠ some name ∧ c.table? = some table.name := by
  constructor
  · intro h
    simp only [inherited?] at h
    split at h
    · rename_i c hc
      split at h
      · exact absurd h (by simp)
      · rename_i halias
        obtain ⟨t, ht, rfl⟩ := Option.map_eq_some_iff.mp h
        exact ⟨c, List.mem_of_find?_eq_some hc, means_iff.mp (List.find?_some hc), halias, ht⟩
    · exact absurd h (by simp)
  · rintro ⟨c, hc, hbears, halias, htable⟩
    rw [inherited?_of_mem honce hc hbears, if_neg halias, htable]
    rfl

theorem exists_text_of_oneTable_iff (hone : s.OneTable name) :
    (∃ text, (⟨name, none⟩ : ColumnRef).text s = .ok text) ↔
      AtMostOne (·.Bears name) s.columns ∧
        ∀ c ∈ s.columns, c.Bears name → c.alias? ≠ some name →
          ∀ table ∈ c.table?, ∃ t ∈ s.tables, t.Answers table := by
  rw [text_of_oneTable hone, exists_check_bind_eq_ok, atMostOne_countP_eq_ok_iff,
    AtMostOne.congr fun _ ↦ competes_unqualified_iff]
  refine and_congr_right fun honce ↦ ?_
  constructor
  · rintro ⟨text, htext⟩ c hc hbears halias table htable
    have hinherited : inherited? ⟨name, none⟩ s = some ⟨table⟩ :=
      (inherited?_eq_some_iff honce).mpr ⟨c, hc, hbears, halias, htable⟩
    rw [hinherited] at htext
    exact exists_qualifiedText_iff.mp ⟨text, htext⟩
  · intro h
    split
    · rename_i table htable
      obtain ⟨c, hc, hbears, halias, hcolumn⟩ := (inherited?_eq_some_iff honce).mp htable
      exact exists_qualifiedText_iff.mpr (h c hc hbears halias table.name hcolumn)
    · exact ⟨name, rfl⟩

/-- A reference fails if several tables may be meant and FROM does not decide. -/
theorem text_ne_ok_of_sources (hseveral : ¬s.OneTable name)
    (hsources : ∀ only, s.sources ≠ [only]) (text : String) :
    (⟨name, none⟩ : ColumnRef).text s ≠ .ok text := by
  have hlength : ¬(writtenTables ⟨name, none⟩ s).length ≤ 1 :=
    fun h ↦ hseveral (length_writtenTables_le_one_iff.mp h)
  simp only [ColumnRef.text, resolve, if_neg hlength]
  simp [bind, Except.bind]

theorem exists_text_iff {r : ColumnRef} :
    (∃ text, r.text s = .ok text) ↔ r.WellScoped s := by
  obtain ⟨name, _ | table⟩ := r
  · constructor
    · rintro ⟨text, htext⟩
      by_cases hone : s.OneTable name
      · obtain ⟨column, visible⟩ := (exists_text_of_oneTable_iff hone).mp ⟨text, htext⟩
        exact .inherited hone column visible
      · match hsources : s.sources with
        | [only] =>
          rw [text_of_source hone hsources] at htext
          obtain ⟨answers, column⟩ := exists_text_of_table_iff.mp ⟨text, htext⟩
          exact .source hone hsources answers column
        | [] => exact absurd htext (text_ne_ok_of_sources hone (by simp [hsources]) text)
        | _ :: _ :: _ => exact absurd htext (text_ne_ok_of_sources hone (by simp [hsources]) text)
    · intro h
      cases h with
      | inherited hone column visible =>
        exact (exists_text_of_oneTable_iff hone).mpr ⟨column, visible⟩
      | source hone hsources answers column =>
        rw [text_of_source hone hsources]
        exact exists_text_of_table_iff.mpr ⟨answers, column⟩
  · rw [exists_text_of_table_iff]
    constructor
    · rintro ⟨answers, column⟩
      exact .qualified answers column
    · rintro (⟨answers, column⟩)
      exact ⟨answers, column⟩

end ColumnRef
end ScopedSelect
