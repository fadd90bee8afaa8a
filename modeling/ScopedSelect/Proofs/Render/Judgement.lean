import ScopedSelect.Proofs.Domain.Writes
import ScopedSelect.Proofs.Render.Clauses
import ScopedSelect.Render.Tree

/-!
# What a rendering gives in a scope

`r.Gives s x vs` says that in every domain with the scope `s`, whatever its state, the rendering `r`
ends with `x` and does nothing to the domain but bind the values `vs`.  A rendering that gives
something in every scope is `Steady`: it reads the scope alone.  `r.Binds s vs` says that it gives
something in one scope, with these values if that is a result.  `r.Yields s P` says nothing about
values: there is a result in these domains, and it has the property `P`.
-/

namespace ScopedSelect
namespace Rendering

variable {α β : Type} {r : Rendering α} {f : α → Rendering β} {s : Scope}
  {x : Except RenderError α} {vs ws : List Value}

/-- In every domain with this scope the result is `x` and the values `vs` are bound. -/
def Gives (r : Rendering α) (s : Scope) (x : Except RenderError α) (vs : List Value) : Prop :=
  ∀ d : Domain, d.scope = s → r.outcome d = (x, d.bindAll vs)

namespace Gives

theorem pure (a : α) : (Pure.pure a : Rendering α).Gives s (.ok a) [] :=
  fun _ _ ↦ rfl

theorem throw (e : RenderError) : (MonadExcept.throw e : Rendering α).Gives s (.error e) [] :=
  fun _ _ ↦ rfl

theorem ofScope (f : Scope → Except RenderError α) : (Rendering.ofScope f).Gives s (f s) [] := by
  rintro d rfl
  rfl

theorem bound (v : Value) : (Rendering.bound v).Gives s (.ok placeholder) [v] :=
  fun _ _ ↦ rfl

/-- The second step runs in the same scope and binds its values after those of the first. -/
theorem bind {a : α} {y : Except RenderError β} (hr : r.Gives s (.ok a) vs)
    (hf : (f a).Gives s y ws) : (r >>= f).Gives s y (vs ++ ws) := by
  intro d hd
  rw [outcome_bind, hr d hd]
  exact (hf (d.bindAll vs) hd).trans (by rw [Domain.bindAll_append])

theorem bind_error {e : RenderError} (hr : r.Gives s (.error e) vs) :
    (r >>= f).Gives s (.error e) vs := by
  intro d hd
  rw [outcome_bind, hr d hd]

theorem map {a : α} (g : α → β) (hr : r.Gives s (.ok a) vs) :
    (r >>= fun a ↦ Pure.pure (g a)).Gives s (.ok (g a)) vs := by
  simpa using Gives.bind (f := fun a ↦ Pure.pure (g a)) hr (.pure (g a))

theorem nested {a : α} {q : Query} (hr : r.Gives (q.scopeIn s) (.ok a) vs) :
    (Rendering.nested q.enter r).Gives s (.ok a) vs := by
  rintro d rfl
  rw [outcome_nested, hr (q.enter d) rfl, Query.enter_eq]
  simp only [Domain.takeState_bindAll]

/-- A nested query that fails leaves no value. -/
theorem nested_error {e : RenderError} {q : Query} (hr : r.Gives (q.scopeIn s) (.error e) vs) :
    (Rendering.nested q.enter r).Gives s (.error e) [] := by
  rintro d rfl
  rw [outcome_nested, hr (q.enter d) rfl, Domain.bindAll_nil]

theorem unique {y : Except RenderError α} (hx : r.Gives s x vs) (hy : r.Gives s y ws) :
    x = y ∧ vs = ws := by
  have h := (hx ⟨s, .empty⟩ rfl).symm.trans (hy ⟨s, .empty⟩ rfl)
  obtain ⟨hxy, hd⟩ := Prod.mk.inj h
  refine ⟨hxy, ?_⟩
  simpa using congrArg Domain.boundValues hd

end Gives

/-- In every scope the rendering gives one result and one list of values. -/
def Steady (r : Rendering α) : Prop :=
  ∀ s, ∃ x vs, r.Gives s x vs

/-- In a scope the rendering gives something, and if that is a result, these values are bound. -/
def Binds (s : Scope) (r : Rendering α) (vs : List Value) : Prop :=
  ∃ x ws, r.Gives s x ws ∧ ∀ a, x = .ok a → ws = vs

theorem Gives.binds (h : r.Gives s x vs) : r.Binds s vs :=
  ⟨x, vs, h, fun _ _ ↦ rfl⟩

theorem Gives.binds_of_error {e : RenderError} (h : r.Gives s (.error e) ws) : r.Binds s vs :=
  ⟨_, ws, h, by simp⟩

namespace Binds

theorem exists_gives (h : r.Binds s vs) : ∃ x ws, r.Gives s x ws := by
  obtain ⟨x, ws, hx, -⟩ := h
  exact ⟨x, ws, hx⟩

theorem error_or_ok (h : r.Binds s vs) :
    (∃ e ws, r.Gives s (.error e) ws) ∨ ∃ a, r.Gives s (.ok a) vs := by
  obtain ⟨x, ws, hx, hvs⟩ := h
  cases x with
  | error e => exact .inl ⟨e, ws, hx⟩
  | ok a =>
    obtain rfl := hvs a rfl
    exact .inr ⟨a, hx⟩

/-- What runs after a result need only bind its values after that result. -/
theorem bind (h : r.Binds s vs) (hf : ∀ a, r.Gives s (.ok a) vs → (f a).Binds s ws) :
    (r >>= f).Binds s (vs ++ ws) := by
  rcases h.error_or_ok with ⟨e, ws', he⟩ | ⟨a, ha⟩
  · exact he.bind_error.binds_of_error
  · rcases (hf a ha).error_or_ok with ⟨e, ws', he⟩ | ⟨b, hb⟩
    · exact (ha.bind he).binds_of_error
    · exact (ha.bind hb).binds

theorem nested {q : Query} (h : r.Binds (q.scopeIn s) vs) :
    (Rendering.nested q.enter r).Binds s vs := by
  rcases h.error_or_ok with ⟨e, ws', he⟩ | ⟨a, ha⟩
  · exact he.nested_error.binds_of_error
  · exact ha.nested.binds

end Binds

/-- In every domain with this scope the rendering has a result, and that has the property. -/
def Yields (r : Rendering α) (s : Scope) (P : α → Prop) : Prop :=
  ∀ d : Domain, d.scope = s → ∃ a, (r.outcome d).1 = .ok a ∧ P a

theorem Yields.map {P : α → Prop} {Q : β → Prop} {g : α → β} (h : r.Yields s P)
    (hg : ∀ a, P a → Q (g a)) : Yields (do return g (← r)) s Q := by
  intro d hd
  obtain ⟨a, ha, hP⟩ := h d hd
  have hresult : r.outcome d = (.ok a, (r.outcome d).2) := Prod.ext ha rfl
  refine ⟨g a, ?_, hg a hP⟩
  rw [outcome_bind, hresult]
  rfl

end Rendering

theorem Query.render_of_gives {q : Query} {d : Domain} {x : Except RenderError String}
    {vs : List Value} (h : q.renderNested.Gives d.scope x vs) :
    q.render d = (x.mapError Error.ofRenderError, d.bindAll vs) := by
  simp only [render, h d rfl]

theorem Query.build_of_gives {q : Query} {x : Except RenderError String} {vs : List Value}
    (h : q.renderNested.Gives .empty x vs) :
    q.build = (x.mapError Error.ofRenderError).map (·, vs) := by
  have hfresh : Domain.fresh.boundValues = [] := rfl
  simp only [build, render_of_gives (d := .fresh) h, Domain.boundValues_bindAll, hfresh,
    List.nil_append]

end ScopedSelect
