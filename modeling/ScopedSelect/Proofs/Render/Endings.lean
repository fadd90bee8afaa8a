import ScopedSelect.Proofs.Render.Clauses
import ScopedSelect.Render.Tree

/-!
# Renderings that end alike

Two renderings end alike if they leave the same domain, whatever it was before, and fail by the same
cause or not at all.  Nothing is said about their texts.  Queries of which the clauses end alike end
alike, so that they bind the same values (`Query.render_of_endAlike`).
-/

namespace ScopedSelect

namespace Rendering

variable {α β γ δ : Type} {r : Rendering α} {r' : Rendering β} {f : α → Rendering γ}
  {f' : β → Rendering δ}

/-- Whatever the domain, one rendering leaves the same domain as the other, and it fails if the
other fails, by the same cause. -/
def EndAlike (r : Rendering α) (r' : Rendering β) : Prop :=
  ∀ d : Domain, (r.outcome d).2 = (r'.outcome d).2 ∧
    ∀ e, (r.outcome d).1 = .error e ↔ (r'.outcome d).1 = .error e

namespace EndAlike

theorem refl (r : Rendering α) : r.EndAlike r :=
  fun _ ↦ ⟨rfl, fun _ ↦ Iff.rfl⟩

theorem pure (a : α) (b : β) : EndAlike (Pure.pure a) (Pure.pure b) := by
  intro d
  simp

/-- Either both have a result or both have failed, and the domain is the same. -/
theorem ok_or_error (h : r.EndAlike r') (d : Domain) :
    (∃ a b d', r.outcome d = (.ok a, d') ∧ r'.outcome d = (.ok b, d')) ∨
      ∃ e d', r.outcome d = (.error e, d') ∧ r'.outcome d = (.error e, d') := by
  obtain ⟨hdomain, herror⟩ := h d
  cases ha : (r.outcome d).1 with
  | error e =>
    have hb := (herror e).mp ha
    exact .inr ⟨e, _, Prod.ext ha rfl, Prod.ext hb hdomain.symm⟩
  | ok a =>
    cases hb : (r'.outcome d).1 with
    | error e =>
      have he := (herror e).mpr hb
      simp [ha] at he
    | ok b => exact .inl ⟨a, b, _, Prod.ext ha rfl, Prod.ext hb hdomain.symm⟩

theorem bind (h : r.EndAlike r') (hf : ∀ a b, (f a).EndAlike (f' b)) :
    (r >>= f).EndAlike (r' >>= f') := by
  intro d
  rw [outcome_bind, outcome_bind]
  rcases h.ok_or_error d with ⟨a, b, d', hr, hr'⟩ | ⟨e, d', hr, hr'⟩
  · rw [hr, hr']
    exact hf a b d'
  · rw [hr, hr']
    exact ⟨rfl, by simp⟩

theorem mapM {ι : Type} {g : ι → Rendering α} {g' : ι → Rendering β} {xs : List ι}
    (h : ∀ x ∈ xs, (g x).EndAlike (g' x)) : (xs.mapM g).EndAlike (xs.mapM g') := by
  induction xs with
  | nil =>
    rw [List.mapM_nil, List.mapM_nil]
    exact .pure [] []
  | cons x xs ih =>
    rw [List.mapM_cons, List.mapM_cons]
    have hxs := ih fun y hy ↦ h y (List.mem_cons_of_mem x hy)
    exact (h x List.mem_cons_self).bind fun _ _ ↦ hxs.bind fun _ _ ↦ .pure _ _

/-- Whatever is made of the result of one rendering. -/
theorem map (r : Rendering α) (f : α → γ) (g : α → δ) :
    EndAlike (do return f (← r)) (do return g (← r)) :=
  (EndAlike.refl r).bind fun a b ↦ .pure (f a) (g b)

theorem nested (h : r.EndAlike r') (enter : Domain → Domain) :
    (Rendering.nested enter r).EndAlike (Rendering.nested enter r') := by
  intro d
  rw [outcome_nested, outcome_nested]
  rcases h.ok_or_error (enter d) with ⟨a, b, d', hr, hr'⟩ | ⟨e, d', hr, hr'⟩
  · rw [hr, hr']
    exact ⟨rfl, by simp⟩
  · rw [hr, hr']
    exact ⟨rfl, by simp⟩

end EndAlike
end Rendering

open Rendering

namespace Query

theorem renderNested_endAlike {q q' : Query} (henter : q.enter = q'.enter)
    (hclauses : ∀ c, (q.renderClause c).EndAlike (q'.renderClause c)) :
    q.renderNested.EndAlike q'.renderNested := by
  rw [renderNested_eq, renderNested_eq, henter]
  exact ((EndAlike.mapM fun c _ ↦ hclauses c).bind fun _ _ ↦ .pure _ _).nested _

theorem render_of_endAlike {q q' : Query} (h : q.renderNested.EndAlike q'.renderNested)
    (d : Domain) :
    (q.render d).2 = (q'.render d).2 ∧
      ∀ e, (q.render d).1 = .error e ↔ (q'.render d).1 = .error e := by
  rcases h.ok_or_error d with ⟨a, b, d', hr, hr'⟩ | ⟨e, d', hr, hr'⟩
  · have hleft : q.render d = (.ok a, d') := by rw [render, hr]; rfl
    have hright : q'.render d = (.ok b, d') := by rw [render, hr']; rfl
    simp [hleft, hright]
  · rw [render, render, hr, hr']
    exact ⟨rfl, fun _ ↦ Iff.rfl⟩

end Query
end ScopedSelect
