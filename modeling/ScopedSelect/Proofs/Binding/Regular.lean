import ScopedSelect.Proofs.Binding.Congruence
import ScopedSelect.Tree.Construction

/-!
# Regular trees without question marks

In a regular tree only literals are bound, and nothing in it computes a text or drops one.  The
texts that come with a tree are told apart from those that rendering adds: if there is no question
mark in the former, then none shows in the text of a part, in an alias or in the name of a visible
table.
-/

namespace ScopedSelect

def Combinator.ownTexts : Combinator → List String
  | .infixed op => [op.text]
  | _ => []

def Folding.ownTexts (f : Folding) : List String :=
  f.combinator?.elim [] Combinator.ownTexts ++ f.seed?.toList

def TableDef.ownTexts (t : TableDef) : List String :=
  t.name :: t.alias?.toList

/-- The texts that come with an expression: names, aliases, tables written before columns, fragments
and literals, operators and seeds.  A query comes with those of its tables. -/
def Expr.ownTexts : Expr → List String
  | .tableDef t => t.ownTexts
  | .tableRef t => [t.name]
  | .columnDef c => c.name :: (c.table?.map TableRef.name).toList ++ c.alias?.toList
  | .columnRef c => c.name :: (c.table?.map TableRef.name).toList
  | .position p => p.alias?.toList
  | .fragment f => f.text :: f.alias?.toList
  | .literal v => [v.literal]
  | .decorated _ _ => []
  | .nothing => []
  | .condition c => c.folding.ownTexts
  | .subquery q => q.tables.flatMap TableDef.ownTexts

/-- Whether both operands of a combinator show in the text. -/
def Combinator.keepsBoth : Combinator → Bool
  | .infixed _ | .pair | .fullText => true
  | _ => false

/-- Whether these are the operands of a null test: an expression and an operand without text. -/
def Condition.areTested : List Expr → Bool
  | [_, .nothing] => true
  | _ => false

/-- A condition without functions of the caller.  A null test has an operand and an empty one, and
nothing to start from. -/
def Condition.isRegular (c : Condition) : Bool :=
  c.folding.map?.isNone &&
    match c.folding.combinator? with
    | some (.custom _ _) => false
    | some .isNull | some .isNotNull =>
      c.folding.seed?.isNone && areTested c.operands
    | _ => true

/-- A regular null test is one that the short notation makes. -/
theorem Condition.eq_of_nullTest {c : Condition} {test : Combinator} (h : c.isRegular = true)
    (hc : c.folding.combinator? = some test) (htest : test = .isNull ∨ test = .isNotNull) :
    ∃ e, c = .combining test [e, .nothing] := by
  obtain ⟨operands, map?, combinator?, seed?⟩ := c
  obtain rfl : combinator? = some test := hc
  have hshape : map? = none ∧ seed? = none ∧ areTested operands = true := by
    rcases htest with rfl | rfl <;> simpa [isRegular] using h
  obtain ⟨rfl, rfl, hoperands⟩ := hshape
  unfold areTested at hoperands
  split at hoperands
  · exact ⟨_, rfl⟩
  · exact absurd hoperands (by simp)

/-- Only literals are bound, and no function of the caller is applied. -/
def Expr.isRegular : Expr → Bool
  | .decorated inner .bind => inner.literal?.isSome
  | .decorated _ (.custom _ _) => false
  | .condition c => c.isRegular
  | _ => true

theorem Expr.appliesCustom_of_isRegular {e : Expr} (h : e.isRegular = true) :
    e.appliesCustom = false := by
  unfold appliesCustom
  split
  · simp [isRegular] at h
  · rfl

theorem TableDef.displayName_mem_ownTexts (t : TableDef) : t.displayName ∈ t.ownTexts := by
  cases h : t.alias? <;> simp [displayName, ownTexts, h]

theorem TableDef.ownTexts_subset {q : Query} {t : TableDef} (ht : t ∈ q.tables) :
    t.ownTexts ⊆ (Expr.subquery q).ownTexts :=
  fun _ h ↦ List.mem_flatMap.mpr ⟨t, ht, h⟩

/-- A property of texts that a tree without parts has whenever its own texts have it. -/
structure PassesToLeaves (P : String → Prop) : Prop where
  empty : P ""
  number (n : Nat) : P (toString n)
  qualified {qualifier name : String} (hqualifier : P qualifier) (hname : P name) :
    P (qualifier ++ "." ++ name)

section OwnTexts

variable {P : String → Prop} {s : Scope}

/-- Every visible table of a query shows a name with the property, if the inherited ones do. -/
theorem Query.displayName_of_ownTexts {q : Query} (hq : ∀ t ∈ (Expr.subquery q).ownTexts, P t)
    (hs : ∀ t ∈ s.tables, P t.displayName) : ∀ t ∈ (q.scopeIn s).tables, P t.displayName := by
  have hown (t : TableDef) (ht : t ∈ q.tables) : P t.symbol.displayName :=
    hq _ (TableDef.ownTexts_subset ht t.displayName_mem_ownTexts)
  intro t ht
  simp only [scopeIn, Scope.nest, List.mem_append, List.mem_map] at ht
  rcases ht with (⟨t, ht, rfl⟩ | ht) | ⟨j, hj, rfl⟩
  · exact hown t (List.mem_append_left _ ht)
  · exact hs t ht
  · exact hown j.table (List.mem_append_right _ (List.mem_map_of_mem hj))

namespace Expr

/-- What stands before a column is what was written there, or what a visible table shows. -/
theorem qualifierText_of_ownTexts {table : TableRef} (htable : P table.name)
    (hs : ∀ t ∈ s.tables, P t.displayName) : P (ColumnDef.qualifierText table s) := by
  unfold ColumnDef.qualifierText
  split
  · rename_i found hfound
    exact hs found (Scope.findTable?_eq_some hfound).1
  · exact htable

theorem leaf_of_ownTexts (hP : PassesToLeaves P) {e : Expr} {g : Scope → Except RenderError String}
    {text : String} (hown : ∀ t ∈ e.ownTexts, P t) (hs : ∀ t ∈ s.tables, P t.displayName)
    (hg : e.leaf? = some g) (htext : g s = .ok text) : P text := by
  cases e with
  | tableDef t =>
    obtain rfl := Option.some.inj hg
    rw [TableDef.eq_name_of_text htext]
    exact hown t.name List.mem_cons_self
  | tableRef t =>
    obtain rfl := Option.some.inj hg
    rw [TableRef.eq_name_of_text htext]
    exact hown t.name List.mem_cons_self
  | columnDef c =>
    obtain rfl := Option.some.inj hg
    have hname : P c.name := hown c.name (by simp [ownTexts])
    rw [ColumnDef.eq_of_text htext]
    cases htable : c.table? with
    | none => exact hname
    | some table =>
      have hqualifier := qualifierText_of_ownTexts (hown table.name (by simp [ownTexts, htable])) hs
      exact hP.qualified hqualifier hname
  | columnRef c =>
    obtain rfl := Option.some.inj hg
    have hname : P c.name := hown c.name List.mem_cons_self
    rcases ColumnRef.eq_of_text htext with rfl | ⟨t, ht, rfl⟩
    · exact hname
    · exact hP.qualified (hs t ht) hname
  | position p =>
    obtain rfl := Option.some.inj hg
    obtain rfl := Except.ok.inj htext
    exact hP.number p.number.toNat
  | fragment f =>
    obtain rfl := Option.some.inj hg
    obtain rfl := Except.ok.inj htext
    exact hown f.text List.mem_cons_self
  | literal v =>
    obtain rfl := Option.some.inj hg
    obtain rfl := Except.ok.inj htext
    exact hown v.literal List.mem_cons_self
  | nothing =>
    obtain rfl := Option.some.inj hg
    obtain rfl := Except.ok.inj htext
    exact hP.empty
  | decorated inner t => simp [leaf?] at hg
  | condition c => simp [leaf?] at hg
  | subquery q => simp [leaf?] at hg

theorem alias_of_ownTexts : ∀ e : Expr, (e.Everywhere fun x ↦ ∀ t ∈ x.ownTexts, P t) →
    ∀ label ∈ e.alias?, P label
  | .decorated inner t, h => by
    rcases bound_or_rendered inner t with ⟨v, rfl, rfl⟩ | hinner
    · simp [alias?]
    · exact alias_of_ownTexts inner (h.inner hinner)
  | .tableDef t, h => fun label hl ↦
    h.here label (by simp_all [alias?, ownTexts, TableDef.ownTexts])
  | .columnDef c, h => fun label hl ↦ h.here label (by simp_all [alias?, ownTexts])
  | .position p, h => fun label hl ↦ h.here label (by simp_all [alias?, ownTexts])
  | .fragment f, h => fun label hl ↦ h.here label (by simp_all [alias?, ownTexts])
  | .tableRef _, _ | .columnRef _, _ | .literal _, _ | .nothing, _ | .condition _, _
  | .subquery _, _ => by simp [alias?]

end Expr
end OwnTexts

theorem notMem_toDigits {c : Char} (hc : c.isDigit = false) (n : Nat) :
    c ∉ Nat.toDigits 10 n := by
  intro h
  have hdigit : c.isDigit = true := Nat.isDigit_of_mem_toDigits (by decide) (by decide) h
  simp [hc] at hdigit

def Scope.Markless (s : Scope) : Prop :=
  ∀ t ∈ s.tables, '?' ∉ t.displayName.toList

/-- An expression is regular, and no question mark comes with it. -/
structure Expr.Markless (e : Expr) : Prop where
  regular : e.isRegular = true
  texts : ∀ t ∈ e.ownTexts, '?' ∉ t.toList

theorem notMem_passesToLeaves : PassesToLeaves fun t ↦ '?' ∉ t.toList where
  empty := by simp
  number n := by simp [notMem_toDigits]
  qualified hqualifier hname := by simp [hqualifier, hname]

theorem Query.scopeIn_markless {q : Query} {s : Scope} (hq : (Expr.subquery q).Markless)
    (hs : s.Markless) : (q.scopeIn s).Markless :=
  Query.displayName_of_ownTexts hq.texts hs

namespace Expr

theorem leaf_markless {e : Expr} {s : Scope} {g : Scope → Except RenderError String}
    {text : String} (he : e.Markless) (hs : s.Markless) (hg : e.leaf? = some g)
    (htext : g s = .ok text) : '?' ∉ text.toList :=
  leaf_of_ownTexts notMem_passesToLeaves he.texts hs hg htext

theorem alias_markless (e : Expr) (he : e.Everywhere Markless) :
    ∀ label ∈ e.alias?, '?' ∉ label.toList :=
  alias_of_ownTexts e fun x hx ↦ (he x hx).texts

end Expr
end ScopedSelect
