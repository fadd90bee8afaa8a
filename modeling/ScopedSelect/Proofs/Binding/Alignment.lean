import ScopedSelect.Proofs.Binding.Filling
import ScopedSelect.Proofs.Binding.Regular

/-!
# Placeholders and bound values are aligned

Nothing in a regular query drops a text or computes one, so that its text has one question mark for
each bound value, provided that none comes with the texts of the tree.  The marks stand in the order
of the values: a query with other texts in the place of the bound literals has the same text with
its marks filled by them (`build_refill`).
-/

namespace ScopedSelect

open Rendering

/-- What is accumulated by a folding, beside the same with its marks filled. -/
inductive AlignedOption (m : Nat → String) (k : Nat) :
    List BindSite → Option String → Option String → List Value → List Value → Prop where
  | nothing : AlignedOption m k [] none none [] []
  | just {L : List BindSite} {a b : String} {vs vs' : List Value}
    (h : Aligned m k L a b vs vs') : AlignedOption m k L (some a) (some b) vs vs'

section Folding

variable {m : Nat → String} (hm : ∀ k, Text.IsFiller (m k)) {k : Nat} {L L' : List BindSite}
  {a b : String} {vs vs' ws ws' : List Value}

include hm

theorem Aligned.reduce {a' b' : String} {c : Combinator} (hc : ∀ t ∈ c.ownTexts, '?' ∉ t.toList)
    (hkeeps : c.keepsBoth = true) (h : Aligned m k L a b vs vs')
    (h' : Aligned m (k + L.length) L' a' b' ws ws') :
    Aligned m k (L ++ L') (c.reduce a a') (c.reduce b b') (vs ++ ws) (vs' ++ ws') := by
  cases c with
  | infixed op =>
    have hop : '?' ∉ op.text.toList := hc op.text List.mem_cons_self
    have hblank : '?' ∉ " ".toList := by simp
    exact (((h.behind hblank).behind hop).behind hblank).append h'
  | pair => exact (h.behind (by simp)).append h'
  | fullText =>
    have hcolumns := ((h.stripParentheses hm).before (t := "MATCH(") (by simp)).behind
      (t := ") AGAINST (") (by simp)
    exact (hcolumns.append (h'.stripParentheses hm)).behind (by simp)
  | isNull => simp [Combinator.keepsBoth] at hkeeps
  | isNotNull => simp [Combinator.keepsBoth] at hkeeps
  | custom name apply => simp [Combinator.keepsBoth] at hkeeps

variable {f : Folding} (htexts : ∀ t ∈ f.ownTexts, '?' ∉ t.toList)
  (hkeeps : ∀ c ∈ f.combinator?, c.keepsBoth = true)

include htexts hkeeps

theorem AlignedOption.step {acc acc' : Option String} (h : AlignedOption m k L acc acc' vs vs')
    (h' : Aligned m (k + L.length) L' a b ws ws') :
    AlignedOption m k (L ++ L') (some (f.step acc a)) (some (f.step acc' b)) (vs ++ ws)
      (vs' ++ ws') := by
  cases h with
  | nothing => exact .just h'
  | just h =>
    refine .just ?_
    cases hc : f.combinator? with
    | none => simpa only [Folding.step, hc] using h.append h'
    | some c =>
      have hown : ∀ t ∈ c.ownTexts, '?' ∉ t.toList :=
        fun t ht ↦ htexts t (by simp [Folding.ownTexts, hc, ht])
      simpa only [Folding.step, hc] using h.reduce hm hown (hkeeps c hc) h'

theorem AlignedOption.foldl {Ls : List (List BindSite)} {as bs : List String}
    {acc acc' : Option String} (h : AlignedOption m k L acc acc' vs vs')
    (h' : Linked (Aligned m) (k + L.length) Ls as bs ws ws') :
    AlignedOption m k (L ++ Ls.flatten) (as.foldl (fun acc text ↦ some (f.step acc text)) acc)
      (bs.foldl (fun acc text ↦ some (f.step acc text)) acc') (vs ++ ws) (vs' ++ ws') := by
  induction as generalizing L Ls bs acc acc' vs vs' ws ws' with
  | nil =>
    cases h'
    simpa using h
  | cons a as ih =>
    cases h' with
    | cons head tail =>
      have hacc := h.step hm htexts hkeeps head
      rw [Nat.add_assoc, ← List.length_append] at tail
      simpa using ih hacc tail

end Folding

section Conditions

variable {m : Nat → String} (hm : ∀ k, Text.IsFiller (m k)) {k : Nat} {c : Condition}
  {as bs : List String} {vs vs' : List Value}

include hm

theorem aligned_accumulate {f : Folding} {Ls : List (List BindSite)}
    (htexts : ∀ t ∈ f.ownTexts, '?' ∉ t.toList) (hmap : f.map? = none)
    (hkeeps : ∀ c ∈ f.combinator?, c.keepsBoth = true)
    (h : Linked (Aligned m) k Ls as bs vs vs') :
    Aligned m k Ls.flatten (f.text as) (f.text bs) vs vs' := by
  have hseed : AlignedOption m k [] f.seed? f.seed? [] [] := by
    cases hs : f.seed? with
    | none => exact .nothing
    | some seed => exact .just (.text (htexts seed (by simp [Folding.ownTexts, hs])))
  have hoperands : Linked (Aligned m) (k + ([] : List BindSite).length) Ls as bs vs vs' := h
  have hacc : AlignedOption m k Ls.flatten (f.accumulate as) (f.accumulate bs) vs vs' := by
    simpa [Folding.accumulate, Folding.mapped, hmap] using
      hseed.foldl hm htexts hkeeps hoperands
  unfold Folding.text
  generalize Ls.flatten = L, f.accumulate as = acc, f.accumulate bs = acc' at hacc
  cases hacc with
  | nothing => exact Aligned.text (t := "") (by simp)
  | just h => exact h.enclose hm

/-- The second operand of a null test has no text to be dropped. -/
theorem aligned_nullTest {e : Expr} {test : Combinator} (suffix : String)
    (hsuffix : '?' ∉ suffix.toList) (htest : ∀ a b, test.reduce a b = a ++ suffix)
    (h : Linked (Aligned m) k ([e, .nothing].map Expr.sites) as bs vs vs') :
    Aligned m k ([e, .nothing].flatMap Expr.sites) ((Folding.combining test).text as)
      ((Folding.combining test).text bs) vs vs' := by
  have hnothing : Expr.nothing.sites = [] := Expr.sites_leaf rfl
  rw [List.flatMap_cons, List.flatMap_singleton, hnothing, List.append_nil]
  rw [List.map_cons, List.map_singleton, hnothing] at h
  cases h with
  | cons head tail =>
    cases tail with
    | cons head' tail' =>
      cases tail'
      have hvalues := List.map_eq_nil_iff.mp head'.values
      have hsilent := head'.silent
      subst hvalues hsilent
      simpa [Folding.text, Folding.accumulate, Folding.mapped, Folding.step, Folding.combining,
        htest] using (head.behind hsuffix).enclose hm

/-- Only a null test leaves out the text of an operand, and that text is empty. -/
theorem aligned_condition {c : Condition} (hregular : c.isRegular = true)
    (htexts : ∀ t ∈ c.folding.ownTexts, '?' ∉ t.toList)
    (h : Linked (Aligned m) k (c.operands.map Expr.sites) as bs vs vs') :
    Aligned m k (c.operands.flatMap Expr.sites) (c.folding.text as) (c.folding.text bs) vs vs' := by
  have hmap : c.folding.map? = none := by
    rw [Condition.isRegular, Bool.and_eq_true] at hregular
    exact Option.isNone_iff_eq_none.mp hregular.1
  have haccumulate (hkeeps : ∀ c' ∈ c.folding.combinator?, c'.keepsBoth = true) :
      Aligned m k (c.operands.flatMap Expr.sites) (c.folding.text as) (c.folding.text bs) vs
        vs' := by
    rw [List.flatMap_def]
    exact aligned_accumulate hm htexts hmap hkeeps h
  cases hc : c.folding.combinator? with
  | none => exact haccumulate (by simp [hc])
  | some test =>
    cases test with
    | infixed op => exact haccumulate (by simp [hc, Combinator.keepsBoth])
    | pair => exact haccumulate (by simp [hc, Combinator.keepsBoth])
    | fullText => exact haccumulate (by simp [hc, Combinator.keepsBoth])
    | isNull =>
      obtain ⟨e, rfl⟩ := Condition.eq_of_nullTest hregular hc (.inl rfl)
      exact aligned_nullTest hm " IS NULL" (by simp) (fun _ _ ↦ rfl) h
    | isNotNull =>
      obtain ⟨e, rfl⟩ := Condition.eq_of_nullTest hregular hc (.inr rfl)
      exact aligned_nullTest hm " IS NOT NULL" (by simp) (fun _ _ ↦ rfl) h
    | custom name apply => simp [Condition.isRegular, hc] at hregular

end Conditions

def Expr.filler (m : Nat → String) (n : Nat) (_ : Value) : Expr :=
  .fragment ⟨m n, none⟩

theorem Aligned.label {m : Nat → String} {k : Nat} {L : List BindSite} {a b : String}
    {vs vs' : List Value} {label : Option String} (hlabel : ∀ l ∈ label, '?' ∉ l.toList)
    (h : Aligned m k L a b vs vs') :
    Aligned m k L (withAlias a label) (withAlias b label) vs vs' := by
  cases label with
  | none => exact h
  | some l => exact (h.behind (t := " AS ") (by simp)).behind (hlabel l rfl)

/-- Every way in which texts are put together keeps a regular tree aligned with its bind sites. -/
theorem aligned_congruence {m : Nat → String} (hm : ∀ k, Text.IsFiller (m k)) :
    Congruence (Expr.filler m) Expr.Markless Scope.Markless (Aligned m) where
  anonymous _ _ := ⟨rfl, rfl, rfl⟩
  enter hq hs := Query.scopeIn_markless hq hs
  noCustom h := Expr.appliesCustom_of_isRegular h.regular
  site k v s := by
    have hrender : (Expr.filler m k v).render = Pure.pure (m k) := by
      rw [Expr.filler, Expr.render]
    rw [hrender]
    refine .done (.bound v) (.pure (m k)) ⟨?_, ?_, rfl, rfl⟩
    · simp [placeholder, Text.fill, Text.fillMarks]
    · simp [placeholder, Text.marks]
  rebind he hv _ := by
    have hregular := he.regular
    simp [Expr.isRegular, hv] at hregular
  leaf k he hs hg htext := .text (Expr.leaf_markless he hs hg htext)
  absent _ := .text (by simp)
  limit _ l := .text (by simp [Limit.text, notMem_toDigits])
  table {q t} k hq ht := by
    have hown (text : String) (htext : text ∈ t.ownTexts) : '?' ∉ text.toList :=
      hq.texts text (TableDef.ownTexts_subset ht htext)
    have hname : Aligned m k [] t.name t.name [] [] := .text (hown _ List.mem_cons_self)
    exact hname.label fun l hl ↦ hown l (by simp_all [TableDef.ownTexts])
  call f h := by
    have hname : '?' ∉ f.name.toList := by cases f <;> simp [SqlFunction.name]
    exact h.parenthesized.before hname
  fold hc h := aligned_condition hm hc.regular hc.texts h
  parenthesize h := h.parenthesized
  label he h := h.label (Expr.alias_markless _ he)
  join kind htable h := by
    have hkeyword : '?' ∉ (kind.keyword ++ " ").toList := by cases kind <;> simp [JoinKind.keyword]
    exact (h.joinText hm (List.count_eq_zero.mp htable.marks)).before hkeyword
  order direction h := by
    have hdirection : '?' ∉ direction.keyword.toList := by
      cases direction <;> simp [Direction.keyword]
    exact (h.behind (t := " ") (by simp)).behind hdirection
  clause c h := Aligned.clause hm c h
  query h := Aligned.spaced hm h

/-- Beside a regular query with a text stands the same query with its bound literals replaced. -/
theorem aligned_of_build {q : Query} {sql : String} {vs : List Value} {m : Nat → String}
    (hm : ∀ k, Text.IsFiller (m k)) (hq : q.Everywhere Expr.Markless)
    (hbuild : q.build = .ok (sql, vs)) :
    ∃ filled, Aligned m 0 q.sites sql filled vs [] ∧
      (q.refill (Expr.filler m) 0).build = .ok (filled, []) := by
  have hempty : Scope.empty.Markless := by simp [Scope.Markless, Scope.empty]
  cases (aligned_congruence hm).agree.2 q hq .empty hempty 0 with
  | failed left right => simp [Query.build_of_gives left, Except.mapError, Except.map] at hbuild
  | @done sql' filled vs₁ vs₂ left right related =>
    rw [Query.build_of_gives left] at hbuild
    obtain ⟨rfl, rfl⟩ : sql' = sql ∧ vs₁ = vs := by
      simpa [Except.mapError, Except.map] using hbuild
    obtain rfl := related.silent
    exact ⟨filled, related, Query.build_of_gives right⟩

/-- A regular query with a text has one placeholder for each bound value, in the order of the
values.  With other texts in the place of the bound literals, it has the same text with its
placeholders filled by these, and binds nothing. -/
theorem build_refill (q : Query) (sql : String) (vs : List Value)
    (hregular : q.Everywhere fun e ↦ e.isRegular = true)
    (htexts : q.Everywhere fun e ↦ ∀ t ∈ e.ownTexts, '?' ∉ t.toList)
    (hbuild : q.build = .ok (sql, vs)) :
    Text.marks sql = vs.length ∧ vs.map some = q.sites ∧
      ∀ m : Nat → String, (∀ k, Text.IsFiller (m k)) →
        (q.refill (fun n _ ↦ .fragment ⟨m n, none⟩) 0).build = .ok (Text.fill m 0 sql, []) := by
  have hq : q.Everywhere Expr.Markless := fun e he ↦ ⟨hregular e he, htexts e he⟩
  have hzero : Text.IsFiller "0" := ⟨by simp, by simp, by simp⟩
  obtain ⟨_, haligned, _⟩ := aligned_of_build (fun _ ↦ hzero) hq hbuild
  refine ⟨?_, haligned.values, fun m hm ↦ ?_⟩
  · rw [haligned.marks, ← haligned.values, List.length_map]
  · obtain ⟨filled, hfilled, hrefill⟩ := aligned_of_build hm hq hbuild
    rw [← hfilled.filled]
    exact hrefill

def Query.accountsText (status value : String) : String :=
  "SELECT a.id FROM accounts AS a WHERE ((a.status = " ++ status ++ ") AND (a.closed IS NULL) " ++
    "AND (a.id IN (SELECT o.account FROM orders AS o WHERE (o.value >= " ++ value ++ "))))"

theorem build_refill_accounts :
    (Query.accounts (.text "open") (.int64 5)).build =
        .ok (Query.accountsText "?" "?", [.text "open", .int64 5]) ∧
      ((Query.accounts (.text "open") (.int64 5)).refill
        (fun n _ ↦ .fragment ⟨if n = 0 then "lower" else "upper", none⟩) 0).build =
          .ok (Query.accountsText "lower" "upper", []) := by
  have hbuild : (Query.accounts (.text "open") (.int64 5)).build =
      .ok (Query.accountsText "?" "?", [.text "open", .int64 5]) := rfl
  have hfill : Text.fill (fun n ↦ if n = 0 then "lower" else "upper") 0
      (Query.accountsText "?" "?") = Query.accountsText "lower" "upper" := by decide +kernel
  obtain ⟨-, -, hrefill⟩ := build_refill _ _ _ (by decide) (by decide) hbuild
  rw [← hfill]
  refine ⟨hbuild, hrefill _ fun k ↦ ?_⟩
  split <;> exact ⟨by decide, by decide, by decide⟩

end ScopedSelect
