import ScopedSelect.Proofs.Binding.Sites
import ScopedSelect.Proofs.Render.Judgement

/-!
# A tree beside the refilled tree

A tree and the same tree with other expressions for its bound literals render side by side: they
fail alike, or both have a text.  How the two texts are related is left open.  A relation that
passes from the parts of a tree to the whole (`Congruence`) holds of every tree and its refilled
one (`Congruence.agree`).
-/

namespace ScopedSelect
namespace Rendering

variable {α β α' β' : Type} {s : Scope} {R : α → β → List Value → List Value → Prop}
  {R' : α' → β' → List Value → List Value → Prop} {r : Rendering α} {r' : Rendering β}

/-- In a scope, two renderings fail alike, or both have results, which are related together with
the values that are bound on the way. -/
inductive Agree (s : Scope) (R : α → β → List Value → List Value → Prop) (r : Rendering α)
    (r' : Rendering β) : Prop where
  | failed {e : RenderError} {vs vs' : List Value} (left : r.Gives s (.error e) vs)
    (right : r'.Gives s (.error e) vs')
  | done {a : α} {b : β} {vs vs' : List Value} (left : r.Gives s (.ok a) vs)
    (right : r'.Gives s (.ok b) vs') (related : R a b vs vs')

namespace Agree

theorem pure {a : α} {b : β} (h : R a b [] []) : Agree s R (Pure.pure a) (Pure.pure b) :=
  .done (.pure a) (.pure b) h

theorem throw (e : RenderError) : Agree s R (MonadExcept.throw e) (MonadExcept.throw e) :=
  .failed (.throw e) (.throw e)

theorem ofScope {R : α → α → List Value → List Value → Prop} {g : Scope → Except RenderError α}
    (h : ∀ a, g s = .ok a → R a a [] []) : Agree s R (.ofScope g) (.ofScope g) := by
  have hg := Gives.ofScope (s := s) g
  match hs : g s with
  | .error e =>
    rw [hs] at hg
    exact .failed hg hg
  | .ok a =>
    rw [hs] at hg
    exact .done hg hg (h a hs)

theorem mono {R' : α → β → List Value → List Value → Prop} (h : Agree s R r r')
    (hR : ∀ a b vs vs', R a b vs vs' → R' a b vs vs') : Agree s R' r r' := by
  cases h with
  | failed left right => exact .failed left right
  | done left right related => exact .done left right (hR _ _ _ _ related)

theorem bind {f : α → Rendering α'} {f' : β → Rendering β'} (h : Agree s R r r')
    (hf : ∀ a b vs vs', R a b vs vs' →
      Agree s (fun c d ws ws' ↦ R' c d (vs ++ ws) (vs' ++ ws')) (f a) (f' b)) :
    Agree s R' (r >>= f) (r' >>= f') := by
  cases h with
  | failed left right => exact .failed left.bind_error right.bind_error
  | done left right related =>
    cases hf _ _ _ _ related with
    | failed left' right' => exact .failed (left.bind left') (right.bind right')
    | done left' right' related' => exact .done (left.bind left') (right.bind right') related'

theorem map {g : α → α'} {g' : β → β'} (h : Agree s R r r')
    (hg : ∀ a b vs vs', R a b vs vs' → R' (g a) (g' b) vs vs') :
    Agree s R' (r >>= fun a ↦ Pure.pure (g a)) (r' >>= fun b ↦ Pure.pure (g' b)) := by
  cases h with
  | failed left right => exact .failed left.bind_error right.bind_error
  | done left right related => exact .done (left.map g) (right.map g') (hg _ _ _ _ related)

theorem nested {q q' : Query} (hq : q'.scopeIn s = q.scopeIn s) (h : Agree (q.scopeIn s) R r r') :
    Agree s R (Rendering.nested q.enter r) (Rendering.nested q'.enter r') := by
  cases h with
  | failed left right =>
    rw [← hq] at right
    exact .failed left.nested_error right.nested_error
  | done left right related =>
    rw [← hq] at right
    exact .done left.nested right.nested related

end Agree
end Rendering

open Rendering

/-- A relation between two texts and the values bound for them, where `sites` are the bind sites of
the first and number from `k` on. -/
abbrev Link :=
  (k : Nat) → (sites : List BindSite) → String → String → List Value → List Value → Prop

/-- Texts that are linked one by one, each at the number of its first site. -/
inductive Linked (R : Link) :
    Nat → List (List BindSite) → List String → List String → List Value → List Value → Prop where
  | nil (k : Nat) : Linked R k [] [] [] [] []
  | cons {k : Nat} {sites : List BindSite} {rest : List (List BindSite)} {a b : String}
    {as bs : List String} {vs vs' ws ws' : List Value} (head : R k sites a b vs vs')
    (tail : Linked R (k + sites.length) rest as bs ws ws') :
    Linked R k (sites :: rest) (a :: as) (b :: bs) (vs ++ ws) (vs' ++ ws')

theorem Rendering.Agree.mapM {ι : Type} {s : Scope} {R : Link} {sites : ι → List BindSite}
    {g : ι → Rendering String} {g' : Nat → ι → Rendering String} {xs : List ι}
    (h : ∀ k, ∀ x ∈ xs, Agree s (R k (sites x)) (g x) (g' k x)) (k : Nat) :
    Agree s (Linked R k (xs.map sites)) (xs.mapM g)
      ((numbered (fun x ↦ (sites x).length) k xs).mapM fun p ↦ g' p.1 p.2) := by
  induction xs generalizing k with
  | nil =>
    rw [numbered, List.mapM_nil, List.mapM_nil]
    exact .pure (.nil k)
  | cons x xs ih =>
    rw [numbered, List.mapM_cons, List.mapM_cons]
    have hxs := ih fun n y hy ↦ h n y (List.mem_cons_of_mem x hy)
    refine (h k x List.mem_cons_self).bind fun a b vs vs' head ↦ ?_
    exact (hxs (k + (sites x).length)).map fun as bs ws ws' tail ↦ .cons head tail

end ScopedSelect
