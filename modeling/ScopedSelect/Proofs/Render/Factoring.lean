import Mathlib.Tactic.Choose
import ScopedSelect.Proofs.Binding.Completeness
import ScopedSelect.Proofs.Tree.Traversal

/-!
# Rendering factors through the scope

Without functions of the caller, a rendering looks at the scope alone and does nothing to the domain
but bind values.  So the text, the failure and the bound values of anything that renders are
functions of the scope (`render_factors`), and what was rendered before in the same domain makes no
difference, whether it succeeded or not.
-/

namespace ScopedSelect

open Rendering

theorem steady_of_customFree {e : Expr} (h : e.CustomFree) : e.render.Steady :=
  fun s ↦ (binds_compositional.render h s).exists_gives

/-- What renders to a text. -/
inductive Node where
  | expr (e : Expr)
  /-- An entity by itself. -/
  | entity (c : Clause) (x : Entity c)
  /-- An entity as part of its clause. -/
  | entityInClause (c : Clause) (x : Entity c)
  | clause (c : Clause) (entities : List (Entity c))
  | query (q : Query)

namespace Node

def render : Node → Rendering String
  | .expr e => e.render
  | .entity c x => Entity.render c x
  | .entityInClause c x => Entity.renderInClause c x
  | .clause c entities => c.render entities
  | .query q => q.renderNested

def CustomFree : Node → Prop
  | .expr e => e.CustomFree
  | .entity c x => ∀ e ∈ Entity.parts c x, e.CustomFree
  | .entityInClause c x => ∀ e ∈ Entity.parts c x, e.CustomFree
  | .clause c entities => ∀ x ∈ entities, ∀ e ∈ Entity.parts c x, e.CustomFree
  | .query q => q.CustomFree

theorem render_steady {n : Node} (h : n.CustomFree) : n.render.Steady := by
  intro s
  have hentity {c : Clause} {x : Entity c} (hx : ∀ e ∈ Entity.parts c x, e.CustomFree) :
      Compositional.HoldsWithin .bindings (fun s _ r vs ↦ r.Binds s vs) s c x :=
    ⟨fun t _ ↦ (Gives.ofScope t.text).binds, fun e he ↦ binds_compositional.render (hx e he) s⟩
  cases n with
  | expr e => exact (binds_compositional.render h s).exists_gives
  | entity c x => exact (binds_compositional.entity (hentity h)).exists_gives
  | entityInClause c x => exact (binds_compositional.entityInClause (hentity h)).exists_gives
  | clause c entities =>
    exact (binds_compositional.clause fun x hx ↦ hentity (h x hx)).exists_gives
  | query q => exact (binds_compositional.renderNested h s).exists_gives

/-- The domain after several nodes were rendered in it, whether they succeeded or not. -/
def renderAll (d : Domain) (nodes : List Node) : Domain :=
  nodes.foldl (fun d n ↦ (n.render.outcome d).2) d

theorem scope_renderAll {nodes : List Node} (h : ∀ n ∈ nodes, n.CustomFree) (d : Domain) :
    (renderAll d nodes).scope = d.scope := by
  induction nodes generalizing d with
  | nil => rfl
  | cons n nodes ih =>
    obtain ⟨x, vs, hn⟩ := render_steady (h n List.mem_cons_self) d.scope
    have hd : (n.render.outcome d).2.scope = d.scope := by
      rw [hn d rfl, Domain.scope_bindAll]
    exact (ih (fun m hm ↦ h m (List.mem_cons_of_mem n hm)) _).trans hd

end Node

/-- The result is a function of the scope, and so are the values that are bound.  The domain changes
in no other way. -/
def FactorsThroughScope {ε : Type} (run : Domain → Except ε String × Domain) : Prop :=
  ∃ (result : Scope → Except ε String) (bound : Scope → List Value), ∀ d : Domain,
    (run d).1 = result d.scope ∧ d.OnlyBinds (run d).2 (bound d.scope)

theorem Rendering.Steady.factorsThroughScope {ε : Type} {r : Rendering String} (h : r.Steady)
    (report : Except RenderError String → Except ε String) :
    FactorsThroughScope fun d ↦ (report (r.outcome d).1, (r.outcome d).2) := by
  choose result bound hgives using h
  refine ⟨fun s ↦ report (result s), bound, fun d ↦ ?_⟩
  simp only [hgives d.scope d rfl, true_and]
  exact d.onlyBinds_bindAll _

/-- Whatever has a text, and a query rendered as a whole, renders to a function of the scope.  What
was rendered before in the domain makes no difference, and rendering twice gives the same result
and binds the same values again. -/
theorem render_factors (n : Node) (h : n.CustomFree) :
    FactorsThroughScope n.render.outcome ∧
      (∀ q, n = .query q → FactorsThroughScope q.render) ∧
      (∀ before : List Node, (∀ m ∈ before, m.CustomFree) → ∀ d,
        (n.render.outcome (Node.renderAll d before)).1 = (n.render.outcome d).1) ∧
      ∀ d, ∃ vs,
        (n.render.outcome d).2.boundValues = d.boundValues ++ vs ∧
        (n.render.outcome (n.render.outcome d).2).1 = (n.render.outcome d).1 ∧
        (n.render.outcome (n.render.outcome d).2).2.boundValues = d.boundValues ++ vs ++ vs := by
  have hn := Node.render_steady h
  refine ⟨hn.factorsThroughScope id, ?_, ?_, ?_⟩
  · rintro q rfl
    exact hn.factorsThroughScope (Except.mapError Error.ofRenderError)
  · intro before hbefore d
    obtain ⟨x, vs, hx⟩ := hn d.scope
    rw [hx _ (Node.scope_renderAll hbefore d), hx d rfl]
  · intro d
    obtain ⟨x, vs, hx⟩ := hn d.scope
    refine ⟨vs, ?_⟩
    rw [hx d rfl, hx (d.bindAll vs) rfl]
    simp

theorem accounts_factors :
    (Node.query (.accounts (.text "open") (.int64 5))).CustomFree ∧
      FactorsThroughScope (Node.query (.accounts (.text "open") (.int64 5))).render.outcome := by
  have h : (Query.accounts (.text "open") (.int64 5)).CustomFree := by decide
  exact ⟨h, (render_factors (.query _) h).1⟩

end ScopedSelect
