import ScopedSelect.Proofs.Failure.Checks
import ScopedSelect.Proofs.Tree.Traversal

/-!
# A query fails by its first failing check

The checks of a tree are listed in `Query.checks` without any rendering.  A rendering stops at the
first of them that fails and reports what went wrong there, at whatever depth it is, once and in the
words of the check (`render_eq_error_iff`).
-/

namespace ScopedSelect

/-- One of the checks fails by this cause, and all those before it pass. -/
def FirstFailure (checks : List Check) (cause : RenderError) : Prop :=
  ∃ before check after, checks = before ++ check :: after ∧
    (∀ c ∈ before, c.failure? = none) ∧ check.failure? = some cause

theorem firstFailure_iff {checks : List Check} {cause : RenderError} :
    FirstFailure checks cause ↔ checks.findSome? Check.failure? = some cause := by
  rw [List.findSome?_eq_some_iff]
  constructor
  · rintro ⟨before, check, after, hsplit, hbefore, hcheck⟩
    exact ⟨before, check, after, hsplit, hcheck, hbefore⟩
  · rintro ⟨before, check, after, hsplit, hcheck, hbefore⟩
    exact ⟨before, check, after, hsplit, hbefore, hcheck⟩

/-- A function of the caller may write the state, but leaves the scope as it is. -/
def Expr.KeepsScope : Expr → Prop
  | .decorated _ (.custom _ apply) => ∀ d text, (apply d text).2.scope = d.scope
  | _ => True

theorem Expr.keepsScope_of_applied? (e : Expr)
    (h : ∀ apply ∈ e.applied?, ∀ d text, (apply d text).2.scope = d.scope) : e.KeepsScope := by
  unfold KeepsScope
  split
  · exact h _ rfl
  · trivial

theorem Expr.keepsScope_of_appliesCustom {e : Expr} (h : e.appliesCustom = false) :
    e.KeepsScope := by
  unfold KeepsScope
  split
  · simp [appliesCustom] at h
  · trivial

theorem Expr.CustomFree.everywhere_keepsScope {e : Expr} (h : e.CustomFree) :
    e.Everywhere KeepsScope :=
  fun x hx ↦ keepsScope_of_appliesCustom (h x hx)

namespace Rendering

variable {α β : Type} {s : Scope} {r : Rendering α} {f : α → Rendering β} {cs cs' : List Check}

/-- In every domain with this scope the rendering keeps it, and fails by the first failure of the
checks. -/
def FailsBy (s : Scope) (r : Rendering α) (cs : List Check) : Prop :=
  ∀ d : Domain, d.scope = s →
    (r.outcome d).2.scope = s ∧ errorOf? (r.outcome d).1 = cs.findSome? Check.failure?

namespace FailsBy

theorem ofScope {g : Scope → Except RenderError α}
    (h : errorOf? (g s) = cs.findSome? Check.failure?) : (Rendering.ofScope g).FailsBy s cs := by
  rintro d rfl
  exact ⟨rfl, h⟩

theorem bound (v : Value) : (Rendering.bound v).FailsBy s [] :=
  fun _ hd ↦ ⟨hd, rfl⟩

/-- The checks of the second step are made in the scope that the first one kept. -/
theorem bind (hr : r.FailsBy s cs) (hf : ∀ a, (f a).FailsBy s cs') :
    (r >>= f).FailsBy s (cs ++ cs') := by
  intro d hd
  obtain ⟨hscope, herror⟩ := hr d hd
  rw [outcome_bind, List.findSome?_append, ← herror]
  match hresult : r.outcome d with
  | (.error e, d') =>
    rw [hresult] at hscope
    exact ⟨hscope, rfl⟩
  | (.ok a, d') =>
    rw [hresult] at hscope
    exact hf a d' hscope

/-- A nested query is checked in its own scope, and hands on what went wrong there. -/
theorem nested {q : Query} (hr : r.FailsBy (q.scopeIn s) cs) :
    (Rendering.nested q.enter r).FailsBy s cs := by
  rintro d rfl
  rw [outcome_nested, ← (hr (q.enter d) rfl).2]
  match r.outcome (q.enter d) with
  | (.error e, inner) => exact ⟨rfl, rfl⟩
  | (.ok a, inner) => exact ⟨rfl, rfl⟩

end FailsBy
end Rendering

open Rendering

theorem failsBy_compositional :
    Compositional .checks Expr.KeepsScope fun s _ r cs ↦ r.FailsBy s cs where
  pure _ _ := fun _ hd ↦ ⟨hd, rfl⟩
  bind hr hf := hr.bind hf
  nested _ hr := hr.nested
  leaf _ _ hg := .ofScope (Expr.errorOf?_leaf hg)
  table {_ t} s _ _ := .ofScope (by
    rw [t.errorOf?_text]
    exact List.findSome?_singleton.symm)
  havings _ _ := fun _ hd ↦ ⟨hd, rfl⟩
  bound _ v := .bound v
  rebound {s inner} _ hr := by
    have hchecks : Walk.checks.expr s (.decorated inner .bind) = inner.checks s ++ [] := by
      rw [List.append_nil]
      exact Expr.checks_decorated s inner .bind
    exact hchecks ▸ hr.bind fun _ ↦ .bound _
  transformed _ he text := fun d hd ↦ ⟨(he d text).trans hd, rfl⟩

theorem errorOf?_eq_some_iff {ε α : Type} {x : Except ε α} {e : ε} :
    errorOf? x = some e ↔ x = .error e := by
  cases x <;> simp [errorOf?]

theorem Rendering.FailsBy.eq_error_iff {α : Type} {r : Rendering α} {cs : List Check}
    {d : Domain} {cause : RenderError} (h : r.FailsBy d.scope cs) :
    (r.outcome d).1 = .error cause ↔ FirstFailure cs cause := by
  rw [firstFailure_iff, ← (h d rfl).2, errorOf?_eq_some_iff]

/-- What a query fails by is no refused argument, so that it is reported by its message. -/
theorem FirstFailure.ofRenderError {checks : List Check} {cause : RenderError}
    (h : FirstFailure checks cause) : Error.ofRenderError cause = .render cause.message := by
  obtain ⟨-, check, -, -, -, hcheck⟩ := h
  cases cause with
  | invalidArgument argument =>
    exact absurd hcheck (check.rule.failure?_ne_invalidArgument check.scope argument)
  | _ => rfl

/-- A query fails exactly if one of its checks does, and it reports the message of the first one
that does, whatever comes after it.  As an operand it fails by the same cause, so that the message
of a nested failure is the one that the check gave. -/
theorem render_eq_error_iff (q : Query) (d : Domain) (h : q.Everywhere Expr.KeepsScope) :
    (∀ e, (q.render d).1 = .error e ↔
      ∃ cause, FirstFailure (q.checks d.scope) cause ∧ e = .render cause.message) ∧
    ∀ cause, ((Expr.subquery q).render.outcome d).1 = .error cause ↔
      FirstFailure (q.checks d.scope) cause := by
  have hquery : q.renderNested.FailsBy d.scope (q.checks d.scope) :=
    failsBy_compositional.renderNested h d.scope
  have hoperand : (Expr.subquery q).render.FailsBy d.scope (q.checks d.scope) :=
    Expr.checks_subquery d.scope q ▸ failsBy_compositional.render h d.scope
  refine ⟨fun e ↦ ?_, fun cause ↦ ?_⟩
  · have hrender : (q.render d).1 = .error e ↔
        ∃ cause, (q.renderNested.outcome d).1 = .error cause ∧ e = Error.ofRenderError cause := by
      simp only [Query.render]
      cases (q.renderNested.outcome d).1 <;> simp [Except.mapError, eq_comm]
    rw [hrender]
    refine exists_congr fun cause ↦ ?_
    rw [hquery.eq_error_iff]
    refine and_congr_right fun hfirst ↦ ?_
    rw [hfirst.ofRenderError]
  · exact hoperand.eq_error_iff

/-- The accounts in the order of their keys, each of which a function of the caller writes down. -/
def Query.markedAccounts : Query :=
  { Query.accounts (.text "open") (.int64 5) with
    orders := [⟨.decorated (.columnRef ⟨"id", some ⟨"a"⟩⟩)
      (.custom "mark" fun d text ↦ (text, d.set "seen" text)), .ascending⟩] }

/-- Orders of customers, whom no query around them brings in.  The condition after HAVING would be
refused as well, but later. -/
def Query.strayOrders : Query :=
  { Query.markedAccounts with
    filters := [some (.subquery { Query.empty with
      select := [.columnDef ⟨"number", some ⟨"o"⟩, none⟩]
      sources := [⟨"orders", some "o"⟩]
      filters := [some (.columnRef ⟨"number", some ⟨"customers"⟩⟩)] })]
    havings := [.nothing] }

theorem strayOrders_render_eq_error :
    Query.strayOrders.Everywhere Expr.KeepsScope ∧
      (Query.strayOrders.render .fresh).1 = .error
        (.render "column `number': table reference `customers' is not defined in the domain") := by
  have hkeeps : Query.strayOrders.Everywhere Expr.KeepsScope :=
    Expr.everywhere_of_callbacks Expr.keepsScope_of_applied?
      (List.forall_mem_singleton.mpr fun _ _ ↦ rfl)
  have hfirst : FirstFailure (Query.strayOrders.checks .empty)
      (.unresolvedTable "number" "customers") := by
    exact ⟨(Query.strayOrders.checks .empty).take 9, _,
      (Query.strayOrders.checks .empty).drop 10, rfl, by decide, rfl⟩
  exact ⟨hkeeps, ((render_eq_error_iff _ .fresh hkeeps).1 _).mpr ⟨_, hfirst, rfl⟩⟩

end ScopedSelect
