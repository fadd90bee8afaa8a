import ScopedSelect.Proofs.Failure.First

/-!
# Rendering accepts exactly the well-scoped queries

A rendering fails by its first failing check, even if functions of the caller read and write the
state on the way: none of them can make a check pass or fail as long as it leaves the scope as it
is.  All checks of a tree pass exactly if the tree is well scoped, which is a matter of the tree
alone (`wellScoped_iff_passes`).  So a query has a text exactly if it is well scoped
(`render_isOk_iff_wellScoped`), unless a function of the caller writes the scope
(`clearedAccounts_not_wellScoped`).
-/

namespace ScopedSelect

/-- All of the checks pass. -/
def Passes (checks : List Check) : Prop :=
  ∀ c ∈ checks, c.failure? = none

section Passing

variable {α : Type} {s : Scope} {cs cs' : List Check}

theorem passes_iff : Passes cs ↔ cs.findSome? Check.failure? = none :=
  List.findSome?_eq_none_iff.symm

theorem passes_append : Passes (cs ++ cs') ↔ Passes cs ∧ Passes cs' :=
  List.forall_mem_append

theorem passes_flatMap {xs : List α} {list : α → List Check} :
    Passes (xs.flatMap list) ↔ ∀ x ∈ xs, Passes (list x) := by
  simp only [Passes, List.mem_flatMap, forall_exists_index, and_imp]
  exact ⟨fun h x hx c hc ↦ h c x hx hc, fun h c x hx hc ↦ h x hx c hc⟩

theorem errorOf?_eq_none_iff {ε : Type} {x : Except ε α} : errorOf? x = none ↔ ∃ a, x = .ok a := by
  cases x <;> simp [errorOf?]

theorem Rendering.FailsBy.isOk_iff {r : Rendering α} {d : Domain} (h : r.FailsBy s cs)
    (hd : d.scope = s) : (∃ a, (r.outcome d).1 = .ok a) ↔ Passes cs := by
  rw [passes_iff, ← (h d hd).2, errorOf?_eq_none_iff]

end Passing

/-! ## The checks of well-scoped trees -/

theorem Expr.wellScoped_leaf_iff {e : Expr} {g : Scope → Except RenderError String} {s : Scope}
    (hg : e.leaf? = some g) : e.WellScoped s ↔ ∃ text, g s = .ok text := by
  cases e with
  | tableDef t =>
    obtain rfl := Option.some.inj hg
    exact wellScoped_tableDef_iff.trans TableDef.exists_text_iff.symm
  | tableRef r =>
    obtain rfl := Option.some.inj hg
    exact wellScoped_tableRef_iff.trans TableRef.exists_text_iff.symm
  | columnDef c =>
    obtain rfl := Option.some.inj hg
    exact wellScoped_columnDef_iff.trans ColumnDef.exists_text_iff.symm
  | columnRef r =>
    obtain rfl := Option.some.inj hg
    exact wellScoped_columnRef_iff.trans ColumnRef.exists_text_iff.symm
  | position p =>
    obtain rfl := Option.some.inj hg
    exact iff_of_true (.position p) ⟨_, rfl⟩
  | fragment f =>
    obtain rfl := Option.some.inj hg
    exact iff_of_true (.fragment f) ⟨_, rfl⟩
  | literal v =>
    obtain rfl := Option.some.inj hg
    exact iff_of_true (.literal v) ⟨_, rfl⟩
  | nothing =>
    obtain rfl := Option.some.inj hg
    exact iff_of_true .nothing ⟨_, rfl⟩
  | decorated | condition | subquery => simp [leaf?] at hg

theorem Expr.wellScoped_leaf_iff_passes {e : Expr} {g : Scope → Except RenderError String}
    (hg : e.leaf? = some g) (s : Scope) : e.WellScoped s ↔ Passes (e.checks s) := by
  rw [wellScoped_leaf_iff hg, passes_iff, ← errorOf?_leaf hg, errorOf?_eq_none_iff]

namespace Entity

variable {c : Clause} {x : Entity c} {s : Scope}

def WellScoped (c : Clause) (x : Entity c) (s : Scope) : Prop :=
  c ≠ .having ∧ (∀ t ∈ tables c x, t.WellScoped s) ∧ ∀ e ∈ parts c x, e.WellScoped s

theorem wellScoped_iff_passes (h : ∀ e ∈ parts c x, e.WellScoped s ↔ Passes (e.checks s)) :
    WellScoped c x s ↔ Passes (checks s c x) := by
  by_cases hc : c = .having
  · subst hc
    simp [WellScoped, Passes, checks, Check.failure?, Rule.failure?]
  have htable (t : TableDef) : t.WellScoped s ↔ Passes (checks s .source t) := by
    rw [← Expr.wellScoped_tableDef_iff, Expr.wellScoped_leaf_iff_passes rfl, Expr.checks]
    rfl
  rw [checks_eq hc, passes_append, passes_flatMap, passes_flatMap, WellScoped, and_iff_right hc]
  exact and_congr (forall₂_congr fun t _ ↦ htable t) (forall₂_congr h)

end Entity

theorem Query.wellScoped_iff {q : Query} {s : Scope} :
    q.WellScoped s ↔
      ∀ c ∈ Clause.all, ∀ x ∈ q.entities c, Entity.WellScoped c x (q.scopeIn s) := by
  constructor
  · rintro ⟨havings, tables, parts⟩ c - x hx
    refine ⟨?_, fun t ht ↦ tables t ?_, fun e he ↦ parts e ?_⟩
    · rintro rfl
      rw [entities, havings] at hx
      exact absurd hx List.not_mem_nil
    · exact mem_tables_iff.mpr ⟨c, x, hx, ht⟩
    · exact mem_parts_iff.mpr ⟨c, x, hx, he⟩
  · intro h
    refine .intro ?_ ?_ ?_
    · exact List.eq_nil_iff_forall_not_mem.mpr fun x hx ↦ (h .having (Clause.mem_all _) x hx).1 rfl
    · intro t ht
      obtain ⟨c, x, hx, ht⟩ := mem_tables_iff.mp ht
      exact (h c c.mem_all x hx).2.1 t ht
    · intro e he
      obtain ⟨c, x, hx, he⟩ := mem_parts_iff.mp he
      exact (h c c.mem_all x hx).2.2 e he

/-- By induction on the tree: the checks of a tree are those of its parts, and so are the conditions
for it to be well scoped. -/
theorem wellScoped_iff_passes :
    (∀ e : Expr, ∀ s, e.WellScoped s ↔ Passes (e.checks s)) ∧
      ∀ q : Query, ∀ s, q.WellScoped s ↔ Passes (q.checks s) := by
  have hdecorated {e : Expr} (t : Transform) {s : Scope}
      (he : e.WellScoped s ↔ Passes (e.checks s)) :
      (Expr.decorated e t).WellScoped s ↔ Passes ((Expr.decorated e t).checks s) := by
    rwa [Expr.wellScoped_decorated_iff, Expr.checks_decorated]
  apply Expr.leaf_induction
  case leaf => exact fun e g ↦ Expr.wellScoped_leaf_iff_passes
  case bound => exact fun v s ↦ hdecorated .bind (Expr.wellScoped_leaf_iff_passes rfl s)
  case decorated => exact fun e t _ ih s ↦ hdecorated t (ih s)
  case condition =>
    intro c ih s
    rw [Expr.wellScoped_condition_iff, Expr.checks_condition, passes_flatMap]
    exact forall₂_congr fun e he ↦ ih e he s
  case subquery =>
    intro q ih s
    rw [Expr.wellScoped_subquery_iff, Expr.checks_subquery]
    exact ih s
  case query =>
    intro q ih s
    have hentity (c : Clause) (x : Entity c) (hx : x ∈ q.entities c) :
        Entity.WellScoped c x (q.scopeIn s) ↔ Passes (Entity.checks (q.scopeIn s) c x) :=
      Entity.wellScoped_iff_passes fun e he ↦
        ih e (Query.mem_parts_iff.mpr ⟨c, x, hx, he⟩) (q.scopeIn s)
    rw [Query.wellScoped_iff, q.checks_eq, passes_flatMap]
    refine forall₂_congr fun c _ ↦ ?_
    rw [passes_flatMap]
    exact forall₂_congr (hentity c)

/-! ## What has a text -/

section Texts

variable {e : Expr} {q : Query} {d : Domain}

theorem Expr.isOk_iff_wellScoped (h : e.Everywhere KeepsScope) :
    (∃ text, (e.render.outcome d).1 = .ok text) ↔ e.WellScoped d.scope :=
  ((failsBy_compositional.render h d.scope).isOk_iff rfl).trans
    (wellScoped_iff_passes.1 e d.scope).symm

theorem Query.renderNested_isOk_iff (h : q.Everywhere Expr.KeepsScope) :
    (∃ text, (q.renderNested.outcome d).1 = .ok text) ↔ q.WellScoped d.scope :=
  ((failsBy_compositional.renderNested h d.scope).isOk_iff rfl).trans
    (wellScoped_iff_passes.2 q d.scope).symm

theorem Query.isOk_iff_renderNested :
    (∃ sql, (q.render d).1 = .ok sql) ↔ ∃ text, (q.renderNested.outcome d).1 = .ok text := by
  simp only [render]
  cases (q.renderNested.outcome d).1 <;> simp [Except.mapError]

end Texts

/-- If the functions of the caller leave the scope as it is, a query has a text in a domain exactly
if it is well scoped there. -/
theorem render_isOk_iff_wellScoped (q : Query) (d : Domain) (h : q.Everywhere Expr.KeepsScope) :
    (∃ sql, (q.render d).1 = .ok sql) ↔ q.WellScoped d.scope :=
  Query.isOk_iff_renderNested.trans (Query.renderNested_isOk_iff h)

theorem markedAccounts_wellScoped :
    Query.markedAccounts.Everywhere Expr.KeepsScope ∧ Query.markedAccounts.WellScoped .empty := by
  have hkeeps : Query.markedAccounts.Everywhere Expr.KeepsScope :=
    Expr.everywhere_of_callbacks Expr.keepsScope_of_applied?
      (List.forall_mem_singleton.mpr fun _ _ ↦ rfl)
  exact ⟨hkeeps, (render_isOk_iff_wellScoped _ .fresh hkeeps).mp ⟨_, rfl⟩⟩

/-- Two tables of one name.  Before they are checked, a function of the caller clears the domain. -/
def Query.clearedAccounts : Query :=
  { Query.empty with
    select := [.decorated (.literal (.int64 1)) (.custom "reset" fun _ text ↦ (text, .fresh))]
    sources := [⟨"accounts", none⟩, ⟨"accounts", none⟩] }

/-- In a scope that was cleared nothing is visible, so that no check fails. -/
theorem clearedAccounts_not_wellScoped :
    (Query.clearedAccounts.render .fresh).1 = .ok "SELECT 1 FROM accounts,accounts" ∧
      ¬Query.clearedAccounts.WellScoped .empty := by
  refine ⟨rfl, ?_⟩
  rintro ⟨-, tables, -⟩
  have haccounts : AtMostOne (·.displayName = "accounts")
      (Query.clearedAccounts.scopeIn .empty).tables := tables ⟨"accounts", none⟩ List.mem_cons_self
  exact absurd haccounts (by decide)

end ScopedSelect
