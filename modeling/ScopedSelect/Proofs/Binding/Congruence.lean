import ScopedSelect.Proofs.Binding.Agreement

/-!
# Relations that pass from the parts of a tree to the whole

The text of a tree is put together from the texts of its parts in a handful of ways.  A relation
between texts that each of them preserves is a `Congruence`.  It then holds of the texts of a tree
and of the refilled tree, at every bind site in between (`Congruence.agree`).
-/

namespace ScopedSelect

open Rendering

/-- A relation `R` is kept by every way in which texts are put together, as long as the expressions
satisfy `ok` and what is visible satisfies `inv`. -/
structure Congruence (f : Nat → Value → Expr) (ok : Expr → Prop) (inv : Scope → Prop)
    (R : Link) : Prop where
  anonymous (n : Nat) (v : Value) : (f n v).Anonymous
  /-- Every nested query is entered with an admissible scope. -/
  enter {q : Query} {s : Scope} (hq : ok (.subquery q)) (hs : inv s) : inv (q.scopeIn s)
  noCustom {e : Expr} (h : ok e) : e.appliesCustom = false
  /-- A bound literal beside what takes its place. -/
  site (k : Nat) (v : Value) (s : Scope) : Agree s (R k [some v]) (.bound v) (f k v).render
  /-- The text of something else is bound. -/
  rebind {e : Expr} {k : Nat} {L : List BindSite} {a b : String} {vs vs' : List Value}
    (he : ok (.decorated e .bind)) (hv : e.literal? = none) (h : R k L a b vs vs') :
    R k (L ++ [none]) placeholder placeholder (vs ++ [.text a]) (vs' ++ [.text b])
  leaf {e : Expr} {g : Scope → Except RenderError String} {s : Scope} {text : String} (k : Nat)
    (he : ok e) (hs : inv s) (hg : e.leaf? = some g) (htext : g s = .ok text) :
    R k [] text text [] []
  absent (k : Nat) : R k [] "" "" [] []
  limit (k : Nat) (l : Limit) : R k [] l.text l.text [] []
  table {q : Query} {t : TableDef} (k : Nat) (hq : ok (.subquery q)) (ht : t ∈ q.tables) :
    R k [] (withAlias t.name t.alias?) (withAlias t.name t.alias?) [] []
  call {k : Nat} {L : List BindSite} {a b : String} {vs vs' : List Value} (g : SqlFunction)
    (h : R k L a b vs vs') :
    R k L (g.name ++ Text.parenthesized a) (g.name ++ Text.parenthesized b) vs vs'
  fold {c : Condition} {k : Nat} {as bs : List String} {vs vs' : List Value}
    (hc : ok (.condition c)) (h : Linked R k (c.operands.map Expr.sites) as bs vs vs') :
    R k (c.operands.flatMap Expr.sites) (c.folding.text as) (c.folding.text bs) vs vs'
  parenthesize {k : Nat} {L : List BindSite} {a b : String} {vs vs' : List Value}
    (h : R k L a b vs vs') : R k L (Text.parenthesized a) (Text.parenthesized b) vs vs'
  label {e : Expr} {k : Nat} {L : List BindSite} {a b : String} {vs vs' : List Value}
    (he : e.Everywhere ok) (h : R k L a b vs vs') :
    R k L (withAlias a e.alias?) (withAlias b e.alias?) vs vs'
  join {k : Nat} {L : List BindSite} {table a b : String} {vs vs' : List Value} (kind : JoinKind)
    (htable : R k [] table table [] []) (h : R k L a b vs vs') :
    R k L (kind.keyword ++ " " ++ joinText table a) (kind.keyword ++ " " ++ joinText table b) vs vs'
  order {k : Nat} {L : List BindSite} {a b : String} {vs vs' : List Value} (direction : Direction)
    (h : R k L a b vs vs') :
    R k L (a ++ " " ++ direction.keyword) (b ++ " " ++ direction.keyword) vs vs'
  clause {k : Nat} {L : List (List BindSite)} {as bs : List String} {vs vs' : List Value}
    (c : Clause) (h : Linked R k L as bs vs vs') :
    R k L.flatten (c.headed (c.assemble as)) (c.headed (c.assemble bs)) vs vs'
  query {k : Nat} {L : List (List BindSite)} {as bs : List String} {vs vs' : List Value}
    (h : Linked R k L as bs vs vs') : R k L.flatten (spaced as) (spaced bs) vs vs'

namespace Congruence

variable {f : Nat → Value → Expr} {ok : Expr → Prop} {inv : Scope → Prop} {R : Link} {s : Scope}

def AgreeExpr (f : Nat → Value → Expr) (R : Link) (s : Scope) (e : Expr) : Prop :=
  ∀ k, Agree s (R k e.sites) e.render (e.refill f k).render

theorem agree_leaf (h : Congruence f ok inv R) {e : Expr} {g : Scope → Except RenderError String}
    (hg : e.leaf? = some g) (he : ok e) (hs : inv s) : AgreeExpr f R s e := by
  intro k
  have hsites : e.sites = [] := Expr.sites_leaf hg
  have hrefill : e.refill f k = e := Expr.refill_leaf hg
  rw [hsites, hrefill, Expr.render_leaf hg]
  exact .ofScope fun text htext ↦ h.leaf k he hs hg htext

theorem agree_table (t : TableDef) :
    Agree s (fun a b vs vs' ↦ a = withAlias t.name t.alias? ∧ b = withAlias t.name t.alias? ∧
      vs = [] ∧ vs' = []) t.render t.render := by
  have htext : Agree s (fun a b vs vs' ↦ a = t.name ∧ b = t.name ∧ vs = [] ∧ vs' = [])
      (.ofScope t.text) (.ofScope t.text) :=
    .ofScope fun _ h ↦ ⟨TableDef.eq_name_of_text h, TableDef.eq_name_of_text h, rfl, rfl⟩
  refine htext.map ?_
  rintro _ _ _ _ ⟨rfl, rfl, hvs⟩
  exact ⟨rfl, rfl, hvs⟩

theorem agree_filter (h : Congruence f ok inv R) {e : Option Expr}
    (he : ∀ e' ∈ e, AgreeExpr f R s e') (k : Nat) :
    Agree s (R k (e.elim [] Expr.sites)) (renderFilter e)
      (renderFilter (refillFilter f k e)) := by
  cases e with
  | none =>
    rw [refillFilter, renderFilter]
    exact .pure (h.absent k)
  | some e =>
    rw [refillFilter, renderFilter, renderFilter]
    exact he e rfl k

theorem agree_join (h : Congruence f ok inv R) {j : Join}
    (htable : ∀ k, R k [] (withAlias j.table.name j.table.alias?)
      (withAlias j.table.name j.table.alias?) [] [])
    (hon : ∀ e ∈ j.on?, AgreeExpr f R s e) (k : Nat) :
    Agree s (R k (Entity.sites .join j)) (Entity.renderInClause .join j)
      (Entity.renderInClause .join (j.refill f k)) := by
  obtain ⟨table, kind, on⟩ := j
  have htext : Agree s
      (fun a b vs vs' ↦ R k (on.elim [] Expr.sites) (kind.keyword ++ " " ++ a)
        (kind.keyword ++ " " ++ b) vs vs')
      (Join.render ⟨table, kind, on⟩) (Join.render ⟨table, kind, refillFilter f k on⟩) := by
    rw [Join.render, Join.render]
    refine (agree_table table).bind ?_
    rintro _ _ _ _ ⟨rfl, rfl, rfl, rfl⟩
    exact (h.agree_filter hon k).map fun a b vs vs' hR ↦ h.join kind (htable k) hR
  rw [Join.refill]
  exact htext.map fun a b vs vs' hR ↦ hR

theorem agree_entity (h : Congruence f ok inv R) {c : Clause} {x : Entity c}
    (htables : ∀ t ∈ Entity.tables c x, ∀ k,
      R k [] (withAlias t.name t.alias?) (withAlias t.name t.alias?) [] [])
    (hparts : ∀ e ∈ Entity.parts c x, e.Everywhere ok ∧ AgreeExpr f R s e) (k : Nat) :
    Agree s (R k (Entity.sites c x)) (Entity.renderInClause c x)
      (Entity.renderInClause c (Entity.refill f c k x)) := by
  have hagree (e : Expr) (he : e ∈ Entity.parts c x) : AgreeExpr f R s e := (hparts e he).2
  cases c with
  | select =>
    refine (hagree x List.mem_cons_self k).map fun a b vs vs' hR ↦ ?_
    have halias : Expr.alias? (Entity.refill f .select k x) = Expr.alias? x :=
      (Expr.visible_refill h.anonymous x).1
    rw [halias]
    exact h.label (hparts x List.mem_cons_self).1 hR
  | source =>
    refine (agree_table x).mono ?_
    rintro _ _ _ _ ⟨rfl, rfl, rfl, rfl⟩
    exact htables x List.mem_cons_self k
  | join =>
    exact h.agree_join (htables _ List.mem_cons_self)
      (fun e he ↦ hagree e (Option.mem_toList.mpr he)) k
  | filter => exact h.agree_filter (fun e he ↦ hagree e (Option.mem_toList.mpr he)) k
  | group => exact hagree x List.mem_cons_self k
  | having => exact .throw havingFailure
  | order =>
    obtain ⟨target, direction⟩ := x
    have htext : Agree s (R k target.sites) (Order.render ⟨target, direction⟩)
        (Order.render ⟨target.refill f k, direction⟩) := by
      rw [Order.render, Order.render]
      exact (hagree target List.mem_cons_self k).map fun a b vs vs' hR ↦ h.order direction hR
    simpa [Entity.renderInClause, Entity.render, Entity.sites, Entity.refill, Order.refill] using
      htext
  | limit => exact .pure (h.limit k x)

theorem agree_entityOf (h : Congruence f ok inv R) {q : Query} (hq : ok (.subquery q))
    (hparts : ∀ e ∈ q.parts, e.Everywhere ok ∧ AgreeExpr f R s e) {c : Clause} {x : Entity c}
    (hx : x ∈ q.entities c) (k : Nat) :
    Agree s (R k (Entity.sites c x)) (Entity.renderInClause c x)
      (Entity.renderInClause c (Entity.refill f c k x)) :=
  h.agree_entity (fun _ ht m ↦ h.table m hq (Query.mem_tables_iff.mpr ⟨c, x, hx, ht⟩))
    (fun e he ↦ hparts e (Query.mem_parts_iff.mpr ⟨c, x, hx, he⟩)) k

theorem agree_clause (h : Congruence f ok inv R) {q : Query} {c : Clause}
    (hentity : ∀ k, ∀ x ∈ q.entities c, Agree s (R k (Entity.sites c x))
      (Entity.renderInClause c x) (Entity.renderInClause c (Entity.refill f c k x))) (k : Nat) :
    Agree s (R k (q.clauseSites c)) (q.renderClause c) (do
      return c.headed (← c.render
        ((q.numberedEntities k c).map fun p ↦ Entity.refill f c p.1 p.2))) := by
  unfold Query.renderClause Clause.render
  rw [List.mapM_map]
  simp only [bind_assoc, pure_bind]
  exact (Agree.mapM hentity k).map fun as bs vs vs' hR ↦ h.clause c hR

/-- The clauses of the refilled query are rendered from the numbers of their first sites on. -/
theorem agree_query (h : Congruence f ok inv R) {q : Query} (hq : ok (.subquery q))
    (hparts : ∀ e ∈ q.parts, e.Everywhere ok ∧ AgreeExpr f R (q.scopeIn s) e) (k : Nat) :
    Agree s (R k q.sites) q.renderNested (q.refill f k).renderNested := by
  have hclauses : Agree (q.scopeIn s) (Linked R k (Clause.all.map q.clauseSites))
      (Clause.all.mapM q.renderClause) (Clause.all.mapM (q.refill f k).renderClause) := by
    have hclause (n : Nat) (c : Clause) (_ : c ∈ Clause.all) :=
      h.agree_clause (fun m _ hx ↦ h.agree_entityOf (c := c) hq hparts hx m) n
    have := Agree.mapM hclause k
    rw [q.numbered_all, List.mapM_map] at this
    simp only [Function.comp_def, ← Query.entities_refill] at this
    exact this
  rw [Query.renderNested_eq, Query.renderNested_eq, Query.sites_eq]
  refine Agree.nested (Query.scopeIn_refill h.anonymous k q s) ?_
  exact hclauses.map fun as bs vs vs' hR ↦ h.query hR

theorem agree_condition (h : Congruence f ok inv R) {c : Condition} (hc : ok (.condition c))
    (hoperands : ∀ e ∈ c.operands, AgreeExpr f R s e) :
    AgreeExpr f R s (.condition c) := by
  intro k
  have hoperand (n : Nat) (e : Expr) (he : e ∈ c.operands) := hoperands e he n
  have hrefilled : ((Expr.condition c).refill f k).render = do
      let texts ← (numbered (·.sites.length) k c.operands).mapM fun p ↦ (p.2.refill f p.1).render
      return c.folding.text texts := by
    rw [Expr.refill_condition, Expr.render_condition, List.mapM_map]
    rfl
  rw [Expr.sites_condition, Expr.render_condition, hrefilled]
  exact (Agree.mapM hoperand k).map fun as bs vs vs' hR ↦ h.fold hc hR

theorem agree_decorated (h : Congruence f ok inv R) {inner : Expr} {t : Transform}
    (hd : ok (.decorated inner t)) (hinner : t = .bind → inner.literal? = none)
    (hagree : AgreeExpr f R s inner) : AgreeExpr f R s (.decorated inner t) := by
  intro k
  rw [Expr.refill_decorated hinner]
  cases t with
  | function g =>
    rw [Expr.sites_decorated (by simp), Expr.render, Expr.render]
    exact (hagree k).map fun a b vs vs' hR ↦ h.call g hR
  | bind =>
    have hv := hinner rfl
    have hv' : (inner.refill f k).literal? = none := by
      rw [(Expr.visible_refill h.anonymous inner).2.2, hv]
    simp only [Expr.sites_rebound hv, Expr.render, hv, hv']
    refine (hagree k).bind fun a b vs vs' hR ↦ ?_
    exact .done (.bound _) (.bound _) (h.rebind hd hv hR)
  | custom name apply => exact absurd (h.noCustom hd) (by simp [Expr.appliesCustom])

/-- A congruence holds of the texts of every tree and of the refilled tree. -/
theorem agree (h : Congruence f ok inv R) :
    (∀ e : Expr, e.Everywhere ok → ∀ s, inv s → AgreeExpr f R s e) ∧
      ∀ q : Query, q.Everywhere ok → ∀ s, inv s → ∀ k,
        Agree s (R k q.sites) q.renderNested (q.refill f k).renderNested := by
  apply Expr.leaf_induction
  case leaf => exact fun e g hg he s hs ↦ h.agree_leaf hg he.here hs
  case bound =>
    intro v _ s _ k
    rw [Expr.refill_bound, Expr.sites_bound, Expr.render, Expr.literal?]
    exact h.site k v s
  case decorated =>
    exact fun e t hinner ih he s hs ↦
      h.agree_decorated he.here hinner (ih (he.inner hinner) s hs)
  case condition =>
    exact fun c ih hc s hs ↦ h.agree_condition hc.here fun e he ↦
      ih e he (hc.of_mem_parts he) s hs
  case subquery =>
    intro q ih hq s hs k
    rw [Expr.sites_subquery, Expr.refill, Expr.render, Expr.render]
    exact (ih hq s hs k).map fun a b vs vs' hR ↦ h.parenthesize hR
  case query =>
    intro q ih hq s hs k
    refine h.agree_query hq.here (fun e he ↦ ⟨hq.of_mem_parts he, ?_⟩) k
    exact ih e he (hq.of_mem_parts he) _ (h.enter hq.here hs)

end Congruence
end ScopedSelect
