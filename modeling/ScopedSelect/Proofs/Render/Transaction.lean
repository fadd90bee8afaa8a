import ScopedSelect.Proofs.Binding.Completeness
import ScopedSelect.Proofs.Domain.Writes
import ScopedSelect.Proofs.Scope.Soundness

/-!
# A query is a transaction on the domain

Functions of the caller may write to the domain while a query renders.  All writes go to a domain of
the query's own, and so do those of the queries in it.  If the query has a text, the domain around
it is left as if all of them had been made there; if not, it is left as it was
(`render_transaction`).
-/

namespace ScopedSelect

/-- A function of the caller may read the whole domain, but does nothing to it besides writing. -/
def Expr.WritesOnly : Expr → Prop
  | .decorated _ (.custom _ apply) => ∀ d text, ∃ ws, (apply d text).2 = d.writeAll ws
  | _ => True

theorem Expr.writesOnly_of_applied? (e : Expr)
    (h : ∀ apply ∈ e.applied?, ∀ d text, ∃ ws, (apply d text).2 = d.writeAll ws) :
    e.WritesOnly := by
  unfold WritesOnly
  split
  · exact h _ rfl
  · trivial

namespace Rendering

variable {α β : Type} {r : Rendering α} {f : α → Rendering β}

/-- Whether it has a result or fails, the rendering does nothing to a domain besides writing. -/
def Writes (r : Rendering α) : Prop :=
  ∀ d : Domain, ∃ ws, (r.outcome d).2 = d.writeAll ws

namespace Writes

theorem of_unchanged (h : ∀ d, (r.outcome d).2 = d) : r.Writes :=
  fun d ↦ ⟨[], h d⟩

theorem bound (v : Value) : (Rendering.bound v).Writes :=
  fun _ ↦ ⟨[.bind v], rfl⟩

theorem bind (hr : r.Writes) (hf : ∀ a, (f a).Writes) : (r >>= f).Writes := by
  intro d
  obtain ⟨ws, hws⟩ := hr d
  rw [outcome_bind]
  match hd : r.outcome d with
  | (.error e, d') =>
    rw [hd] at hws
    exact ⟨ws, hws⟩
  | (.ok a, d') =>
    rw [hd] at hws
    obtain ⟨ws', hws'⟩ := hf a d'
    refine ⟨ws ++ ws', hws'.trans ?_⟩
    rw [show d' = d.writeAll ws from hws, Domain.writeAll_append]

/-- The domain around a nested query is written to by the query, if that has a result. -/
theorem nested_eq {q : Query} {d : Domain} {a : α} {ws : List Write}
    (hok : (r.outcome (q.enter d)).1 = .ok a)
    (hws : (r.outcome (q.enter d)).2 = (q.enter d).writeAll ws) :
    (Rendering.nested q.enter r).outcome d = (.ok a, d.writeAll ws) := by
  have hinner : r.outcome (q.enter d) = (.ok a, (q.enter d).writeAll ws) := Prod.ext hok hws
  rw [outcome_nested, hinner, Query.enter_eq]
  simp only [Domain.takeState_writeAll]

theorem nested_eq_of_error {q : Query} {d : Domain} {e : RenderError}
    (herror : (r.outcome (q.enter d)).1 = .error e) :
    (Rendering.nested q.enter r).outcome d = (.error e, d) := by
  have hinner : r.outcome (q.enter d) = (.error e, (r.outcome (q.enter d)).2) :=
    Prod.ext herror rfl
  rw [outcome_nested, hinner]

theorem nested {q : Query} (hr : r.Writes) : (Rendering.nested q.enter r).Writes := by
  intro d
  obtain ⟨ws, hws⟩ := hr (q.enter d)
  cases hresult : (r.outcome (q.enter d)).1 with
  | error e => exact ⟨[], by rw [nested_eq_of_error hresult, Domain.writeAll_nil]⟩
  | ok a => exact ⟨ws, by rw [nested_eq hresult hws]⟩

end Writes
end Rendering

open Rendering

theorem writes_compositional :
    Compositional .bindings Expr.WritesOnly fun _ _ r _ ↦ r.Writes where
  pure _ _ := .of_unchanged fun _ ↦ rfl
  bind hr hf := hr.bind hf
  nested _ hr := hr.nested
  leaf _ _ _ := .of_unchanged fun _ ↦ rfl
  table _ _ _ := .of_unchanged fun _ ↦ rfl
  havings _ _ := .of_unchanged fun _ ↦ rfl
  bound _ v := .bound v
  rebound _ hr := hr.bind fun _ ↦ .bound _
  transformed _ he text := fun d ↦ he d text

namespace Query

variable {q : Query} {d : Domain}

theorem render_of_error {e : RenderError}
    (herror : (q.renderClauses.outcome (q.enter d)).1 = .error e) :
    q.render d = (.error (Error.ofRenderError e), d) := by
  rw [render, q.renderNested_eq_nested, Writes.nested_eq_of_error herror]
  rfl

/-- What the clauses write to the domain of the query ends up in the domain around it. -/
theorem render_of_writes {sql : String} {ws : List Write}
    (hok : (q.renderClauses.outcome (q.enter d)).1 = .ok sql)
    (hws : (q.renderClauses.outcome (q.enter d)).2 = (q.enter d).writeAll ws) :
    q.render d = (.ok sql, d.writeAll ws) := by
  rw [render, q.renderNested_eq_nested, Writes.nested_eq hok hws]
  rfl

theorem outcome_subquery (q : Query) (d : Domain) :
    ((Expr.subquery q).render.outcome d).2 = (q.render d).2 := by
  rw [Expr.render, outcome_bind, render]
  cases q.renderNested.outcome d with
  | mk result d' => cases result <;> rfl

end Query

/-- Rendering a query is a transaction.  If it has a text, the scope of the domain is unchanged and
its state is the one in which the clauses end: there are writes that lead to it in the domain of the
query, and the same writes made directly lead from the domain before to the domain after.  If it
fails, wherever that may be, the domain is unchanged.  As an operand, the query does the same. -/
theorem render_transaction (q : Query) (d : Domain) (h : q.Everywhere Expr.WritesOnly) :
    (∀ sql, (q.render d).1 = .ok sql →
      (q.render d).2.scope = d.scope ∧
      (q.render d).2.state = (q.renderClauses.outcome (q.enter d)).2.state ∧
      ∃ ws, (q.renderClauses.outcome (q.enter d)).2 = (q.enter d).writeAll ws ∧
        (q.render d).2 = d.writeAll ws) ∧
    (∀ e, (q.render d).1 = .error e → (q.render d).2 = d) ∧
    ((Expr.subquery q).render.outcome d).2 = (q.render d).2 := by
  obtain ⟨ws, hws⟩ := writes_compositional.renderClauses h d.scope (q.enter d)
  cases hresult : (q.renderClauses.outcome (q.enter d)).1 with
  | error e =>
    have hrender := Query.render_of_error hresult
    exact ⟨by simp [hrender], by simp [hrender], q.outcome_subquery d⟩
  | ok sql =>
    have hrender := Query.render_of_writes hresult hws
    refine ⟨fun _ _ ↦ ?_, by simp [hrender], q.outcome_subquery d⟩
    rw [hrender]
    refine ⟨d.scope_writeAll ws, ?_, ws, hws, rfl⟩
    rw [hws, q.enter_eq, d.state_writeAll_scope (q.scopeIn d.scope)]

/-- The key that was there before stays in front of those that the query writes. -/
theorem markedAccounts_transaction :
    let d := Domain.fresh.set "mode" "strict"
    Query.markedAccounts.Everywhere Expr.WritesOnly ∧
      (Query.markedAccounts.render d).2.scope = d.scope ∧
      (Query.markedAccounts.render d).2.state.keys = ["mode", "boundParams", "seen"] := by
  intro d
  have hwrites : Query.markedAccounts.Everywhere Expr.WritesOnly := by
    refine Expr.everywhere_of_callbacks Expr.writesOnly_of_applied? ?_
    exact List.forall_mem_singleton.mpr fun d text ↦ ⟨[.set "seen" (.text text)], rfl⟩
  obtain ⟨hscope, hstate, -⟩ := (render_transaction Query.markedAccounts d hwrites).1 _ rfl
  refine ⟨hwrites, hscope, ?_⟩
  rw [hstate]
  rfl

end ScopedSelect
