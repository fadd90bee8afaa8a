import ScopedSelect.Proofs.Binding.Regular
import ScopedSelect.Proofs.Binding.Shape
import ScopedSelect.Proofs.Scope.Hygiene
import ScopedSelect.Proofs.Text.Balance

/-!
# Parentheses in rendered texts

Most ways of putting texts together add parentheses in pairs.  A search in the full text takes pairs
away, and a join condition gets one only if it has none around it; both decisions are made by the
scan for a wrapped text, so that they keep the balance.  If all texts that come with a query are
balanced and no function of the caller is applied, then whatever is rendered in it is balanced
(`render_balanced`).
-/

namespace ScopedSelect

open Rendering

section Texts

open Text (Balanced)

variable {a b text : String} {texts : List String}

theorem balanced_empty : Balanced "" := .of_notMem (by simp) (by simp)

theorem balanced_toString (n : Nat) : Balanced (toString n) :=
  .of_notMem (by simp [notMem_toDigits]) (by simp [notMem_toDigits])

theorem balanced_withAlias {label : Option String} (htext : Balanced text)
    (hlabel : ∀ l ∈ label, Balanced l) : Balanced (withAlias text label) := by
  cases label with
  | none => exact htext
  | some l =>
    have has : Balanced " AS " := by decide
    exact (htext.append has).append (hlabel l rfl)

theorem balanced_after {word : String} (hword : Balanced word) (htext : Balanced text) :
    Balanced (after word text) := by
  unfold after
  split
  · exact balanced_empty
  · exact hword.append htext

theorem balanced_joinText {table condition : String} (htable : Balanced table)
    (hcondition : Balanced condition) : Balanced (joinText table condition) := by
  have hon : Balanced (table ++ " ON ") := htable.append (by decide)
  unfold joinText
  split
  · exact htable
  split
  · exact hon.append hcondition
  · exact hon.append hcondition.parenthesized

theorem balanced_spaced (htexts : ∀ text ∈ texts, Balanced text) : Balanced (spaced texts) := by
  have hblank : Balanced " " := by decide
  exact hblank.intercalate fun text h ↦ htexts text (List.mem_of_mem_filter h)

theorem Clause.balanced_assemble (c : Clause) (htexts : ∀ text ∈ texts, Balanced text) :
    Balanced (c.assemble texts) := by
  have hkeyword : Balanced c.keyword := by cases c <;> decide
  have hseparator : Balanced c.separator := by cases c <;> decide
  have hshown (text : String) (h : text ∈ texts.filter (· ≠ "")) : Balanced text :=
    htexts text (List.mem_of_mem_filter h)
  unfold assemble
  split
  · exact balanced_empty
  · exact hkeyword.append (hseparator.intercalate hshown)

theorem Clause.balanced_headed (c : Clause) (htext : Balanced text) :
    Balanced (c.headed text) := by
  cases c with
  | source =>
    have hfrom : Balanced "FROM " := by decide
    exact balanced_after hfrom htext
  | _ => exact htext

theorem Combinator.balanced_reduce {c : Combinator} (hcustom : ∀ name apply, c ≠ .custom name apply)
    (hown : ∀ t ∈ c.ownTexts, Balanced t) (ha : Balanced a) (hb : Balanced b) :
    Balanced (c.reduce a b) := by
  cases c with
  | infixed op =>
    have hblank : Balanced " " := by decide
    have hop : Balanced op.text := hown op.text List.mem_cons_self
    exact (((ha.append hblank).append hop).append hblank).append hb
  | isNull => exact ha.append (by decide)
  | isNotNull => exact ha.append (by decide)
  | pair => exact (ha.append (by decide)).append hb
  | fullText =>
    have htext : reduce .fullText a b =
        "MATCH" ++ Text.parenthesized (Text.stripParentheses a) ++ " AGAINST " ++
          Text.parenthesized (Text.stripParentheses b ++ " IN BOOLEAN MODE") := by
      apply String.toList_inj.mp
      simp [reduce]
    have hmode : Balanced (Text.stripParentheses b ++ " IN BOOLEAN MODE") :=
      hb.stripParentheses.append (by decide)
    have hmatch : Balanced "MATCH" := by decide
    rw [htext]
    exact ((hmatch.append ha.stripParentheses.parenthesized).append (by decide)).append
      hmode.parenthesized
  | custom name apply => exact absurd rfl (hcustom name apply)

namespace Folding

variable {f : Folding}

theorem balanced_step (hcalls : f.callsBack = false) (hown : ∀ t ∈ f.ownTexts, Balanced t)
    {acc : Option String} (hacc : ∀ a ∈ acc, Balanced a) (htext : Balanced text) :
    Balanced (f.step acc text) := by
  cases acc with
  | none => exact htext
  | some a =>
    have ha : Balanced a := hacc a rfl
    cases hc : f.combinator? with
    | none => simpa only [step, hc] using ha.append htext
    | some c =>
      have hcustom (name : String) (apply : String → String → String) :
          c ≠ .custom name apply := by
        rintro rfl
        simp [callsBack, hc] at hcalls
      have hcown : ∀ t ∈ c.ownTexts, Balanced t :=
        fun t ht ↦ hown t (by simp [ownTexts, hc, ht])
      simpa only [step, hc] using c.balanced_reduce hcustom hcown ha htext

theorem balanced_accumulate (hcalls : f.callsBack = false) (hown : ∀ t ∈ f.ownTexts, Balanced t)
    (htexts : ∀ text ∈ texts, Balanced text) : ∀ a ∈ f.accumulate texts, Balanced a := by
  have hmapped (text : String) : f.mapped text = text := by
    cases hmap : f.map? with
    | none => simp [mapped, hmap]
    | some map => simp [callsBack, hmap] at hcalls
  have hfold (acc : Option String) (hacc : ∀ a ∈ acc, Balanced a) :
      ∀ a ∈ texts.foldl (fun acc text ↦ some (f.step acc (f.mapped text))) acc, Balanced a := by
    induction texts generalizing acc with
    | nil => exact hacc
    | cons text texts ih =>
      have htext : Balanced (f.mapped text) := by
        rw [hmapped]
        exact htexts text List.mem_cons_self
      refine ih (fun text h ↦ htexts text (List.mem_cons_of_mem _ h)) _ ?_
      rintro _ ⟨⟩
      exact balanced_step hcalls hown hacc htext
  refine hfold f.seed? fun seed hseed ↦ hown seed ?_
  exact List.mem_append_right _ (Option.mem_toList.mpr hseed)

theorem balanced_text (hcalls : f.callsBack = false) (hown : ∀ t ∈ f.ownTexts, Balanced t)
    (htexts : ∀ text ∈ texts, Balanced text) : Balanced (f.text texts) := by
  have hacc := balanced_accumulate hcalls hown htexts
  unfold text
  cases hresult : f.accumulate texts with
  | none => exact balanced_empty
  | some a =>
    have ha : Balanced a := hacc a hresult
    simp only [enclose]
    split
    · exact balanced_empty
    · exact ha.parenthesized

end Folding
end Texts

theorem balanced_passesToLeaves : PassesToLeaves Text.Balanced where
  empty := balanced_empty
  number := balanced_toString
  qualified hqualifier hname := (hqualifier.append (by decide)).append hname

/-- No function of the caller is applied, and the texts that come with the expression are
balanced. -/
structure Expr.Bracketed (e : Expr) : Prop where
  plain : e.callsBack = false
  texts : ∀ t ∈ e.ownTexts, Text.Balanced t

def Scope.Bracketed (s : Scope) : Prop :=
  ∀ t ∈ s.tables, Text.Balanced t.displayName

/-- A text on its own that is balanced; what stands beside it does not matter. -/
def BalancedLink : Link := fun _ _ a _ _ _ ↦ Text.Balanced a

theorem balanced_of_linked {k : Nat} {L : List (List BindSite)} {as bs : List String}
    {vs vs' : List Value} (h : Linked BalancedLink k L as bs vs vs') :
    ∀ a ∈ as, Text.Balanced a := by
  induction h with
  | nil k => simp
  | cons head tail ih =>
    intro a ha
    rcases List.mem_cons.mp ha with rfl | ha
    · exact head
    · exact ih a ha

theorem balanced_congruence :
    Congruence (Expr.bindAs id) Expr.Bracketed Scope.Bracketed BalancedLink where
  anonymous := Expr.bindAs_anonymous id
  enter hq hs := Query.displayName_of_ownTexts hq.texts hs
  noCustom h := Expr.appliesCustom_of_callsBack h.plain
  site k v s := by
    have hplaceholder : Text.Balanced placeholder := by decide
    rw [Expr.render_bindAs]
    exact .done (.bound v) (.bound v) hplaceholder
  rebind _ _ _ := show Text.Balanced placeholder by decide
  leaf _ he hs hg htext := Expr.leaf_of_ownTexts balanced_passesToLeaves he.texts hs hg htext
  absent _ := balanced_empty
  limit _ l := by
    have hnumber := balanced_toString l.number.toNat
    have hoffset := balanced_toString l.offset.toNat
    exact (hnumber.append (by decide)).append hoffset
  table {q t} _ hq ht := by
    have hown (text : String) (htext : text ∈ t.ownTexts) : Text.Balanced text :=
      hq.texts text (TableDef.ownTexts_subset ht htext)
    refine balanced_withAlias (hown _ List.mem_cons_self) fun l hl ↦ hown l ?_
    exact List.mem_cons_of_mem _ (Option.mem_toList.mpr hl)
  call f h := by
    have hname : Text.Balanced f.name := by cases f <;> decide
    exact hname.append h.parenthesized
  fold hc h := Folding.balanced_text hc.plain hc.texts (balanced_of_linked h)
  parenthesize h := h.parenthesized
  label he h := balanced_withAlias h (Expr.alias_of_ownTexts _ fun x hx ↦ (he x hx).texts)
  join kind htable h := by
    have hkeyword : Text.Balanced (kind.keyword ++ " ") := by cases kind <;> decide
    exact hkeyword.append (balanced_joinText htable h)
  order direction h := by
    have hdirection : Text.Balanced direction.keyword := by cases direction <;> decide
    exact (h.append (by decide)).append hdirection
  clause c h := c.balanced_headed (c.balanced_assemble (balanced_of_linked h))
  query h := balanced_spaced (balanced_of_linked h)

theorem Rendering.Agree.yields {α β : Type} {r : Rendering α} {r' : Rendering β} {s : Scope}
    {P : α → Prop} {R : α → β → List Value → List Value → Prop} {cs : List Check}
    (h : Agree s R r r') (hr : r.FailsBy s cs) (hcs : Passes cs)
    (hR : ∀ a b vs vs', R a b vs vs' → P a) : r.Yields s P := by
  rintro d rfl
  obtain ⟨a, ha⟩ := (hr.isOk_iff rfl).mpr hcs
  refine ⟨a, ha, ?_⟩
  cases h with
  | failed left right => simp [left d rfl] at ha
  | @done a' b vs vs' left right related =>
    rw [left d rfl] at ha
    obtain rfl : a' = a := Except.ok.inj ha
    exact hR a' b vs vs' related

namespace Expr.Bracketed

variable {e : Expr} {q : Query} {s : Scope}

theorem everywhere_keepsScope (h : e.Everywhere Bracketed) : e.Everywhere KeepsScope :=
  fun x hx ↦ keepsScope_of_appliesCustom (appliesCustom_of_callsBack (h x hx).plain)

theorem yields_balanced (h : e.Everywhere Bracketed) (hs : s.Bracketed)
    (hscoped : e.WellScoped s) : e.render.Yields s Text.Balanced := by
  have hfails := failsBy_compositional.render (everywhere_keepsScope h) s
  have hagree := balanced_congruence.agree.1 e h s hs 0
  have hpasses := (wellScoped_iff_passes.1 e s).mp hscoped
  exact hagree.yields hfails hpasses fun _ _ _ _ hlink ↦ hlink

theorem clause_yields_balanced (h : q.Everywhere Bracketed) (hs : s.Bracketed)
    (hscoped : q.WellScoped s) (c : Clause) :
    (c.render (q.entities c)).Yields (q.scopeIn s) Text.Balanced := by
  have hparts (e : Expr) (he : e ∈ q.parts) : e.Everywhere Bracketed := h.of_mem_parts he
  have hown : (q.scopeIn s).Bracketed := Query.displayName_of_ownTexts h.here.texts hs
  have hfails (x : Entity c) (hx : x ∈ q.entities c) :
      (Entity.renderInClause c x).FailsBy (q.scopeIn s) (Entity.checks (q.scopeIn s) c x) := by
    refine failsBy_compositional.entityInClause ⟨fun t ht ↦ ?_, fun e he ↦ ?_⟩
    · have hkeeps : q.Everywhere KeepsScope := everywhere_keepsScope h
      exact failsBy_compositional.table s hkeeps.here (Query.mem_tables_iff.mpr ⟨c, x, hx, ht⟩)
    · have hpart : e ∈ q.parts := Query.mem_parts_iff.mpr ⟨c, x, hx, he⟩
      exact failsBy_compositional.render (everywhere_keepsScope (hparts e hpart)) _
  have hpasses : Passes ((q.entities c).flatMap (Entity.checks (q.scopeIn s) c)) := by
    have hquery := (wellScoped_iff_passes.2 q s).mp hscoped
    rw [q.checks_eq, passes_flatMap] at hquery
    exact hquery c c.mem_all
  have hagree (k : Nat) (x : Entity c) (hx : x ∈ q.entities c) :=
    balanced_congruence.agree_entityOf (s := q.scopeIn s) h.here
      (fun e he ↦ ⟨hparts e he, balanced_congruence.agree.1 e (hparts e he) _ hown⟩) hx k
  have hentities : ((q.entities c).mapM (Entity.renderInClause c)).Yields (q.scopeIn s)
      fun texts ↦ ∀ text ∈ texts, Text.Balanced text := by
    exact (Agree.mapM hagree 0).yields (failsBy_compositional.mapM hfails) hpasses
      fun _ _ _ _ hlinked ↦ balanced_of_linked hlinked
  exact hentities.map fun _ htexts ↦ c.balanced_assemble htexts

end Expr.Bracketed

/-- If the texts that come with a query are balanced and no function of the caller is applied, the
text of the query is balanced.  In the scope of its own level, every expression that stands in the
query has a text, and so has every clause of every query that stands there, and all of these are
balanced. -/
theorem render_balanced (q : Query) (sql : String)
    (hplain : q.Everywhere fun e ↦ e.callsBack = false)
    (htexts : q.Everywhere fun e ↦ ∀ t ∈ e.ownTexts, Text.Balanced t)
    (hsql : (q.render .fresh).1 = .ok sql) :
    Text.Balanced sql ∧
      (∀ (e : Expr) (s : Scope), e.StandsIn s .empty (.subquery q) →
        e.render.Yields s Text.Balanced) ∧
      ∀ (q' : Query) (s : Scope), (Expr.subquery q').StandsIn s .empty (.subquery q) →
        ∀ c : Clause, (c.render (q'.entities c)).Yields (q'.scopeIn s) Text.Balanced := by
  have hq : q.Everywhere Expr.Bracketed := fun e he ↦ ⟨hplain e he, htexts e he⟩
  have hkeeps := Expr.Bracketed.everywhere_keepsScope hq
  have hempty : Scope.empty.Bracketed := by simp [Scope.Bracketed, Scope.empty]
  have hscoped : q.WellScoped .empty :=
    (Query.renderNested_isOk_iff hkeeps).mp (Query.isOk_iff_renderNested.mp ⟨sql, hsql⟩)
  have hstands {e : Expr} {s : Scope} (h : e.StandsIn s .empty (.subquery q)) :
      (e.Everywhere Expr.Bracketed ∧ s.Bracketed) ∧ e.WellScoped s := by
    refine ⟨h.everywhere (fun q' s hq' hs ↦ ?_) hq hempty, ?_⟩
    · exact Query.displayName_of_ownTexts hq'.texts hs
    · exact (h.wellScoped (.subquery hscoped) List.nodup_nil).1
  refine ⟨?_, fun e s h ↦ ?_, fun q' s h c ↦ ?_⟩
  · have hfails := failsBy_compositional.renderNested hkeeps .empty
    have hagree := balanced_congruence.agree.2 q hq .empty hempty 0
    have hpasses := (wellScoped_iff_passes.2 q .empty).mp hscoped
    have hyields : q.renderNested.Yields .empty Text.Balanced :=
      hagree.yields hfails hpasses fun _ _ _ _ hlink ↦ hlink
    obtain ⟨text, htext, hbalanced⟩ := hyields .fresh rfl
    obtain rfl : text = sql := by simpa [Query.render, htext, Except.mapError] using hsql
    exact hbalanced
  · obtain ⟨⟨he, hs⟩, hscoped'⟩ := hstands h
    exact Expr.Bracketed.yields_balanced he hs hscoped'
  · obtain ⟨⟨hq', hs⟩, hscoped'⟩ := hstands h
    cases hscoped' with
    | subquery hscoped' => exact Expr.Bracketed.clause_yields_balanced hq' hs hscoped' c

/-- The accounts of which the name is found in a search, with the number of their orders. -/
def Query.foundAccounts : Query :=
  { Query.empty with
    select := [.columnDef ⟨"id", some ⟨"a"⟩, none⟩, .fragment ⟨"COUNT(*)", some "orders"⟩]
    sources := [⟨"accounts", some "a"⟩]
    joins := [⟨⟨"orders", some "o"⟩, .left, some (.condition (.combining (.infixed .equal) [
      .columnRef ⟨"account", some ⟨"o"⟩⟩, .columnRef ⟨"id", some ⟨"a"⟩⟩]))⟩]
    filters := [some (.condition (.combining .fullText [
      .condition (.combining .pair [
        .columnRef ⟨"name", some ⟨"a"⟩⟩, .columnRef ⟨"note", some ⟨"a"⟩⟩]),
      .decorated (.literal (.text "(")) .bind]))] }

theorem foundAccounts_balanced :
    let sql := "SELECT a.id,COUNT(*) AS orders FROM accounts AS a " ++
      "LEFT JOIN orders AS o ON (o.account = a.id) " ++
      "WHERE (MATCH(a.name,a.note) AGAINST (? IN BOOLEAN MODE))"
    (Query.foundAccounts.render .fresh).1 = .ok sql ∧ Text.Balanced sql ∧
      ∀ c : Clause, (c.render (Query.foundAccounts.entities c)).Yields
        (Query.foundAccounts.scopeIn .empty) Text.Balanced := by
  intro sql
  have hrender : (Query.foundAccounts.render .fresh).1 = .ok sql := rfl
  have hbalanced := render_balanced _ sql (by decide) (by decide) hrender
  exact ⟨hrender, hbalanced.1, hbalanced.2.2 _ .empty .self⟩

end ScopedSelect
