import ScopedSelect.Proofs.Binding.Congruence
import ScopedSelect.Proofs.Binding.Shape
import ScopedSelect.Render.Tree

/-!
# Bound values stay out of the text

The texts and failures of queries of one shape are those of the common shape, and the values they
bind differ at most where the literals differ (`render_eq_of_shape_eq`).  Nothing is assumed about
combinators and maps of the caller: they only ever see placeholders.
-/

namespace ScopedSelect

open Rendering

/-- The texts are the same, and so are the values that are no bound literals. -/
structure Confined (k : Nat) (sites : List BindSite) (a b : String) (vs vs' : List Value) :
    Prop where
  text : a = b
  length : vs'.length = sites.length
  values : vs = List.zipWith (fun site w ↦ site.getD w) sites vs'

namespace Confined

variable {k : Nat} {L : List BindSite} {a b : String} {vs vs' : List Value}

theorem congr (h : Confined k L a b vs vs') (g : String → String) :
    Confined k L (g a) (g b) vs vs' :=
  ⟨congrArg g h.text, h.length, h.values⟩

theorem append {L' : List BindSite} {a' b' c d : String} {ws ws' : List Value}
    (h : Confined k L a b vs vs') (h' : Confined (k + L.length) L' a' b' ws ws')
    (hcd : c = d) : Confined k (L ++ L') c d (vs ++ ws) (vs' ++ ws') where
  text := hcd
  length := by simp [h.length, h'.length]
  values := by rw [List.zipWith_append h.length.symm, ← h.values, ← h'.values]

theorem of_linked {L : List (List BindSite)} {as bs : List String}
    (h : Linked Confined k L as bs vs vs') (g : List String → String) :
    Confined k L.flatten (g as) (g bs) vs vs' := by
  have hlists : as = bs ∧ Confined k L.flatten "" "" vs vs' := by
    induction h with
    | nil k => exact ⟨rfl, rfl, rfl, rfl⟩
    | cons head tail ih => exact ⟨by rw [head.text, ih.1], head.append ih.2 rfl⟩
  exact ⟨congrArg g hlists.1, hlists.2.length, hlists.2.values⟩

end Confined

/-- Every way in which texts are put together keeps bound values apart from them. -/
theorem confined_congruence (g : Value → Value) :
    Congruence (Expr.bindAs g) (fun e ↦ e.appliesCustom = false) (fun _ ↦ True) Confined where
  anonymous := Expr.bindAs_anonymous g
  enter _ _ := trivial
  noCustom h := h
  site k v s := by
    rw [Expr.render_bindAs]
    exact .done (.bound v) (.bound (g v)) ⟨rfl, rfl, rfl⟩
  rebind {e k L a b vs vs'} _ _ h := by
    have hlast : Confined (k + L.length) [none] a b [.text a] [.text b] :=
      ⟨h.text, rfl, by rw [h.text]; rfl⟩
    exact h.append hlast rfl
  leaf _ _ _ _ _ := ⟨rfl, rfl, rfl⟩
  absent _ := ⟨rfl, rfl, rfl⟩
  limit _ _ := ⟨rfl, rfl, rfl⟩
  table _ _ _ := ⟨rfl, rfl, rfl⟩
  call f h := h.congr fun text ↦ f.name ++ Text.parenthesized text
  fold {c} _ _ _ _ _ _ h := by
    rw [List.flatMap_def]
    exact Confined.of_linked h c.folding.text
  parenthesize h := h.congr Text.parenthesized
  label {e} _ _ _ _ _ _ _ h := h.congr (withAlias · e.alias?)
  join {k L table a b vs vs'} kind _ h :=
    h.congr fun text ↦ kind.keyword ++ " " ++ joinText table text
  order direction h := h.congr (· ++ " " ++ direction.keyword)
  clause c h := Confined.of_linked h fun texts ↦ c.headed (c.assemble texts)
  query h := Confined.of_linked h spaced

/-- Two lists of values are the same, except where two different literals stand at the sites. -/
structure DifferAtLiterals (sites₁ sites₂ : List BindSite) (vs₁ vs₂ : List Value) : Prop where
  length : vs₁.length = vs₂.length
  agree (k : Nat) : vs₁[k]? = vs₂[k]? ∨
    ∃ v₁ v₂, v₁ ≠ v₂ ∧ sites₁[k]? = some (some v₁) ∧ sites₂[k]? = some (some v₂) ∧
      vs₁[k]? = some v₁ ∧ vs₂[k]? = some v₂

theorem differAtLiterals_zipWith {L₁ L₂ : List BindSite} {g : Value → Value} {ws : List Value}
    (hsites : L₁.map (Option.map g) = L₂.map (Option.map g)) (hlength : ws.length = L₁.length) :
    DifferAtLiterals L₁ L₂ (List.zipWith (fun site w ↦ site.getD w) L₁ ws)
      (List.zipWith (fun site w ↦ site.getD w) L₂ ws) := by
  have hlength' : L₁.length = L₂.length := by simpa using congrArg List.length hsites
  refine ⟨by simp [hlength', hlength], fun k ↦ ?_⟩
  have hk : L₁[k]?.map (Option.map g) = L₂[k]?.map (Option.map g) := by
    simpa using congrArg (·[k]?) hsites
  simp only [List.getElem?_zipWith]
  cases h₁ : L₁[k]? with
  | none =>
    have h₂ : L₂[k]? = none := by simpa [h₁] using hk.symm
    exact .inl (by simp [h₂])
  | some site₁ =>
    rw [h₁, Option.map_some] at hk
    obtain ⟨site₂, h₂, hsame⟩ := Option.map_eq_some_iff.mp hk.symm
    obtain ⟨hbound, -⟩ := List.getElem?_eq_some_iff.mp h₁
    obtain ⟨w, hw⟩ : ∃ w, ws[k]? = some w :=
      ⟨ws[k], List.getElem?_eq_getElem (by omega)⟩
    simp only [h₂, hw]
    cases site₁ with
    | none =>
      obtain rfl : site₂ = none := by simpa using hsame
      exact .inl rfl
    | some v₁ =>
      obtain ⟨v₂, rfl, -⟩ := Option.map_eq_some_iff.mp hsame
      by_cases hv : v₁ = v₂
      · exact .inl (by rw [hv])
      · exact .inr ⟨v₁, v₂, hv, rfl, rfl, rfl, rfl⟩

/-- Queries of one shape render alike in every domain: to the same text or the same failure.  With
a text, they bind as many values, which differ only where different literals are bound. -/
theorem render_eq_of_shape_eq (q₁ q₂ : Query) (d : Domain) (h₁ : q₁.CustomFree)
    (h₂ : q₂.CustomFree) (hshape : q₁.shape = q₂.shape) :
    (q₁.render d).1 = (q₂.render d).1 ∧
      ∀ sql, (q₁.render d).1 = .ok sql → ∃ vs₁ vs₂,
        (q₁.render d).2.boundValues = d.boundValues ++ vs₁ ∧
        (q₂.render d).2.boundValues = d.boundValues ++ vs₂ ∧
        DifferAtLiterals q₁.sites q₂.sites vs₁ vs₂ := by
  let null : Value → Value := fun _ ↦ .null
  have hsites : q₁.sites.map (Option.map null) = q₂.sites.map (Option.map null) := by
    rw [← (sites_refill_bindAs null).2 q₁ 0, ← (sites_refill_bindAs null).2 q₂ 0]
    exact congrArg Query.sites hshape
  have hagree₁ := (confined_congruence null).agree.2 q₁ h₁ d.scope trivial 0
  have hagree₂ : Agree d.scope (Confined 0 q₂.sites) q₂.renderNested q₁.shape.renderNested := by
    rw [hshape]
    exact (confined_congruence null).agree.2 q₂ h₂ d.scope trivial 0
  cases hagree₁ with
  | failed left₁ right₁ =>
    cases hagree₂ with
    | failed left₂ right₂ =>
      rw [Query.render_of_gives left₁, Query.render_of_gives left₂]
      obtain ⟨herror, -⟩ := right₁.unique right₂
      exact ⟨congrArg (·.mapError Error.ofRenderError) herror, by simp [Except.mapError]⟩
    | done left₂ right₂ => exact absurd (right₁.unique right₂).1 (by simp)
  | done left₁ right₁ related₁ =>
    cases hagree₂ with
    | failed left₂ right₂ => exact absurd (right₁.unique right₂).1 (by simp)
    | done left₂ right₂ related₂ =>
      obtain ⟨htext, rfl⟩ := right₁.unique right₂
      obtain rfl := Except.ok.inj htext
      rw [Query.render_of_gives left₁, Query.render_of_gives left₂, related₁.text, related₂.text]
      refine ⟨rfl, fun sql _ ↦ ⟨_, _, d.boundValues_bindAll _, d.boundValues_bindAll _, ?_⟩⟩
      rw [related₁.values, related₂.values]
      exact differAtLiterals_zipWith hsites related₁.length

theorem accounts_render_eq :
    (Query.accounts (.text "open") (.int64 5)).shape =
        (Query.accounts (.text "' OR '' = '") .null).shape ∧
      ((Query.accounts (.text "open") (.int64 5)).render .fresh).1 =
        ((Query.accounts (.text "' OR '' = '") .null).render .fresh).1 := by
  have hshape : (Query.accounts (.text "open") (.int64 5)).shape =
      (Query.accounts (.text "' OR '' = '") .null).shape := rfl
  exact ⟨hshape, (render_eq_of_shape_eq _ _ .fresh (by decide) (by decide) hshape).1⟩

end ScopedSelect
