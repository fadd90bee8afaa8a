import ScopedSelect.Proofs.Binding.Completeness
import ScopedSelect.Proofs.Binding.Sites
import ScopedSelect.Proofs.Scope.Hygiene

/-!
# One placeholder for each bind

A bind leaves one placeholder, whatever is bound.  What is not a literal is rendered for its text,
though, and the values that are bound on the way stay bound while their placeholders go into that
text.  So a bind adds one value for itself and one for each bind within it (`bind_renders`).
-/

namespace ScopedSelect

open Rendering

theorem length_flatMap_congr {α β γ : Type} {xs : List α} {f : α → List β} {g : α → List γ}
    (h : ∀ x ∈ xs, (f x).length = (g x).length) :
    (xs.flatMap f).length = (xs.flatMap g).length := by
  rw [List.length_flatMap, List.length_flatMap, List.map_congr_left h]

section Counting

variable {s : Scope}

theorem Entity.length_bindings {c : Clause} {x : Entity c} (hc : c ≠ .having)
    (h : ∀ e ∈ parts c x, (e.bindings s).length = e.sites.length) :
    (bindings s c x).length = (sites c x).length := by
  have hfilter {e : Option Expr} (he : ∀ e' ∈ e, (e'.bindings s).length = e'.sites.length) :
      (bindingsOfFilter s e).length = (e.elim [] Expr.sites).length := by
    cases e with
    | none => rfl
    | some e => exact he e rfl
  cases c with
  | select => exact h x List.mem_cons_self
  | source => rfl
  | join =>
    obtain ⟨table, kind, on⟩ := x
    exact hfilter fun e he ↦ h e (Option.mem_toList.mpr he)
  | filter => exact hfilter fun e he ↦ h e (Option.mem_toList.mpr he)
  | group => exact h x List.mem_cons_self
  | having => exact absurd rfl hc
  | order =>
    obtain ⟨target, direction⟩ := x
    exact h target List.mem_cons_self
  | limit => rfl

/-- By induction on the tree: every bind in a well-scoped tree gives one value.  That the tree is
well scoped matters for conditions on groups, which have no text and bind nothing. -/
theorem length_bindings_eq_length_sites :
    (∀ (e : Expr) (s : Scope), e.WellScoped s → (e.bindings s).length = e.sites.length) ∧
      ∀ (q : Query) (s : Scope), q.WellScoped s → (q.bindings s).length = q.sites.length := by
  apply Expr.leaf_induction
  case leaf =>
    intro e g hg s _
    rw [Expr.bindings_leaf hg, Expr.sites_leaf hg]
    rfl
  case bound =>
    intro v s _
    rw [Expr.bindings_bound, Expr.sites_bound]
    rfl
  case decorated =>
    intro e t hrendered ih s h
    have he : (e.bindings s).length = e.sites.length := ih s (Expr.wellScoped_decorated_iff.mp h)
    by_cases ht : t = .bind
    · subst ht
      rw [Expr.bindings_rebound s (hrendered rfl), Expr.sites_rebound (hrendered rfl),
        List.length_append, List.length_append, he]
      rfl
    · rw [Expr.bindings_decorated s ht, Expr.sites_decorated ht, he]
  case condition =>
    intro c ih s h
    cases h with
    | condition h =>
      rw [Expr.bindings_condition, Expr.sites_condition]
      exact length_flatMap_congr fun e he ↦ ih e he s (h e he)
  case subquery =>
    intro q ih s h
    cases h with
    | subquery h =>
      rw [Expr.sites_subquery, Expr.bindings]
      exact ih s h
  case query =>
    intro q ih s h
    rw [Query.bindings_eq, Query.sites_eq]
    refine length_flatMap_congr fun c hc ↦ length_flatMap_congr fun x hx ↦ ?_
    obtain ⟨hhaving, -, hparts⟩ := Query.wellScoped_iff.mp h c hc x hx
    exact Entity.length_bindings hhaving fun e he ↦
      ih e (Query.mem_parts_iff.mpr ⟨c, x, hx, he⟩) _ (hparts e he)

end Counting

namespace Expr

variable {e inner : Expr} {d d' : Domain} {text : String}

/-- A bind has a text only if what is bound has one, and it leaves what that bound. -/
theorem outcome_bind_of_text (htext : ((decorated inner .bind).render.outcome d).1 = .ok text) :
    ∃ shown d', inner.render.outcome d = (.ok shown, d') ∧
      (decorated inner .bind).render.outcome d =
        (.ok placeholder, d'.bind (inner.literal?.getD (.text shown))) := by
  cases hliteral : inner.literal? with
  | some v =>
    obtain rfl := eq_of_literal? hliteral
    exact ⟨v.literal, d, rfl, rfl⟩
  | none =>
    have hrender : (decorated inner .bind).render =
        inner.render >>= fun shown ↦ .bound (.text shown) := by
      rw [render, hliteral]
    rw [hrender, outcome_bind] at htext ⊢
    rcases hinner : inner.render.outcome d with ⟨error | shown, d'⟩
    · simp [hinner] at htext
    · exact ⟨shown, d', rfl, rfl⟩

/-- An expression that has a text has bound one value for each of its sites. -/
theorem boundValues_of_text (h : e.CustomFree) (htext : e.render.outcome d = (.ok text, d')) :
    ∃ vs, d'.boundValues = d.boundValues ++ vs ∧ vs.length = e.sites.length := by
  have hkeeps : e.Everywhere KeepsScope := h.everywhere_keepsScope
  have hscoped : e.WellScoped d.scope := (isOk_iff_wellScoped hkeeps).mp ⟨text, by rw [htext]⟩
  refine ⟨e.bindings d.scope, ?_, length_bindings_eq_length_sites.1 e d.scope hscoped⟩
  rcases (binds_compositional.render h d.scope).error_or_ok with
    ⟨error, ws, herror⟩ | ⟨shown, hshown⟩
  · simp [herror d rfl] at htext
  · rw [hshown d rfl] at htext
    rw [← (Prod.mk.inj htext).2]
    exact d.boundValues_bindAll _

end Expr

/-- A bind that has a text leaves the placeholder and adds its own value last: a literal as it is,
and of anything else the text.  It adds that value alone exactly if what is bound adds none itself,
and without functions of the caller this means that there is no bind within. -/
theorem bind_renders (inner : Expr) (text : String) (d : Domain)
    (htext : ((Expr.decorated inner .bind).render.outcome d).1 = .ok text) :
    let values := ((Expr.decorated inner .bind).render.outcome d).2.boundValues
    let within := (inner.render.outcome d).2.boundValues
    text = placeholder ∧
    (∃ shown, (inner.render.outcome d).1 = .ok shown ∧
      values = within ++ [inner.literal?.getD (.text shown)]) ∧
    ((∃ v, values = d.boundValues ++ [v]) ↔ within = d.boundValues) ∧
    (inner.CustomFree →
      (∃ vs, within = d.boundValues ++ vs ∧ vs.length = inner.sites.length) ∧
      (within = d.boundValues ↔ inner.sites = [])) := by
  obtain ⟨shown, d', hinner, hbind⟩ := Expr.outcome_bind_of_text htext
  rw [hbind] at htext
  simp only [hbind, hinner, Domain.boundValues_bind]
  refine ⟨(Except.ok.inj htext).symm, ⟨shown, rfl, rfl⟩, ?_, fun hfree ↦ ?_⟩
  · constructor
    · rintro ⟨v, hv⟩
      exact (List.append_inj' hv rfl).1
    · exact fun hsame ↦ ⟨_, by rw [hsame]⟩
  · obtain ⟨vs, hvs, hlength⟩ := Expr.boundValues_of_text hfree hinner
    refine ⟨⟨vs, hvs, hlength⟩, ?_⟩
    rw [hvs, List.append_right_eq_self, ← List.length_eq_zero_iff, hlength, List.length_eq_zero_iff]

/-- Whether an account is open, which is asked with a bind. -/
def Expr.isOpen : Expr :=
  .condition (.combining (.infixed .equal) [
    .columnRef ⟨"status", some ⟨"a"⟩⟩, .decorated (.literal (.text "open")) .bind])

/-- One account, if its flag is the text of that condition. -/
def Query.flaggedAccount : Query :=
  { Query.empty with
    select := [.columnDef ⟨"id", some ⟨"a"⟩, none⟩]
    sources := [⟨"accounts", some "a"⟩]
    filters := [
      some (.condition (.combining (.infixed .equal) [
        .columnRef ⟨"flag", some ⟨"a"⟩⟩, .decorated .isOpen .bind])),
      some (.condition (.combining (.infixed .equal) [
        .columnRef ⟨"id", some ⟨"a"⟩⟩, .decorated (.literal (.int64 7)) .bind]))] }

/-- The number is one value behind one placeholder; the condition has another bind within. -/
theorem flaggedAccount_bind_renders :
    let d := Query.flaggedAccount.enter .fresh
    (∃ v, ((Expr.decorated (.literal (.int64 7)) .bind).render.outcome d).2.boundValues =
      d.boundValues ++ [v]) ∧
    ∃ vs, ((Expr.decorated .isOpen .bind).render.outcome d).2.boundValues =
      d.boundValues ++ vs ++ [.text "(a.status = ?)"] ∧ vs.length = 1 := by
  intro d
  have hfree : Expr.isOpen.CustomFree := by decide
  obtain ⟨-, -, hsingle, -⟩ := bind_renders (.literal (.int64 7)) placeholder d rfl
  obtain ⟨-, ⟨shown, hshown, hvalues⟩, -, hwithin⟩ := bind_renders .isOpen placeholder d rfl
  obtain ⟨⟨vs, hvs, hlength⟩, -⟩ := hwithin hfree
  refine ⟨hsingle.mpr rfl, vs, ?_, hlength⟩
  have htext : "(a.status = ?)" = shown := Except.ok.inj hshown
  rw [hvalues, hvs, ← htext]
  rfl

/-- The text has two placeholders and three values are bound, so that the second placeholder stands
for the text that belongs to the first. -/
theorem flaggedAccount_shifts :
    (¬∀ (inner : Expr) (text : String) (d : Domain),
      ((Expr.decorated inner .bind).render.outcome d).1 = .ok text →
        text = placeholder ∧
        ∃ v, ((Expr.decorated inner .bind).render.outcome d).2.boundValues =
          d.boundValues ++ [v]) ∧
    Query.flaggedAccount.build = .ok
      ("SELECT a.id FROM accounts AS a WHERE (a.flag = ?) AND (a.id = ?)",
        [.text "open", .text "(a.status = ?)", .int64 7]) := by
  refine ⟨fun h ↦ ?_, rfl⟩
  let d := Query.flaggedAccount.enter .fresh
  have hvalues : ((Expr.decorated .isOpen .bind).render.outcome d).2.boundValues =
      [.text "open", .text "(a.status = ?)"] := rfl
  obtain ⟨-, v, hsingle⟩ := h .isOpen placeholder d rfl
  have hempty : d.boundValues = [] := rfl
  rw [hvalues, hempty] at hsingle
  exact absurd (congrArg List.length hsingle) (by simp)

end ScopedSelect
