import ScopedSelect.Proofs.Scope.Shown

/-!
# Setting an alias

The decorators around an expression have no alias of their own: an alias is set on what is inside,
which must be of a kind that has a place for one.  Reading the alias, setting it and naming the
visible column of a selected expression go through the decorators one by one, each in its own way.
They agree nevertheless (`setAlias_agrees`): what SELECT prints after AS is the alias that
references to the column are resolved by.
-/

namespace ScopedSelect
namespace Expr

/-- What the decorators of an expression are around. -/
def core : Expr → Expr
  | .decorated inner _ => inner.core
  | e => e

/-- The transforms around the core, the outermost one first. -/
def transforms : Expr → List Transform
  | .decorated inner t => t :: inner.transforms
  | _ => []

/-- The expression with transforms around it, of which the first one is the outermost. -/
def wrap : List Transform → Expr → Expr
  | [], e => e
  | t :: ts, e => .decorated (wrap ts e) t

/-- A node without decorators and the same node under another alias. -/
inductive Labelled (label : Option String) : Expr → Expr → Prop where
  | tableDef (name : String) (former : Option String) :
    Labelled label (.tableDef ⟨name, former⟩) (.tableDef ⟨name, label⟩)
  | columnDef (name : String) (table : Option TableRef) (former : Option String) :
    Labelled label (.columnDef ⟨name, table, former⟩) (.columnDef ⟨name, table, label⟩)
  | position (number : UInt32) (former : Option String) :
    Labelled label (.position ⟨number, former⟩) (.position ⟨number, label⟩)
  | fragment (text : String) (former : Option String) :
    Labelled label (.fragment ⟨text, former⟩) (.fragment ⟨text, label⟩)

/-- An expression and the same expression under another alias: the decorators stay, and what they
are around differs in its alias alone. -/
structure Relabelled (label : Option String) (e e' : Expr) : Prop where
  transforms : e'.transforms = e.transforms
  node : Labelled label e.core e'.core

variable {label : Option String} {e e' : Expr}

/-! ## Through the decorators -/

theorem core_eq_self (h : e.kind ≠ .decorated) : e.core = e := by
  cases e with
  | decorated inner t => exact absurd rfl h
  | _ => rfl

theorem transforms_eq_nil (h : e.kind ≠ .decorated) : e.transforms = [] := by
  cases e with
  | decorated inner t => exact absurd rfl h
  | _ => rfl

/-- Induction over the decorators of an expression. -/
theorem decorators_induction {P : Expr → Prop} (undecorated : ∀ e, e.kind ≠ .decorated → P e)
    (decorated : ∀ inner t, P inner → P (.decorated inner t)) : ∀ e, P e := by
  intro e
  induction e using core.induct with
  | case1 inner t ih => exact decorated inner t ih
  | case2 e h =>
    refine undecorated e ?_
    cases e with
    | decorated inner t => exact absurd rfl (h inner t)
    | _ => simp [kind]

/-- An expression is its core with its transforms around it. -/
theorem wrap_transforms_core (e : Expr) : e.core.wrap e.transforms = e := by
  induction e using decorators_induction with
  | undecorated e h =>
    rw [core_eq_self h, transforms_eq_nil h]
    rfl
  | decorated inner t ih => exact congrArg (decorated · t) ih

theorem core_kind_ne_decorated (e : Expr) : e.core.kind ≠ .decorated := by
  induction e using decorators_induction with
  | undecorated e h => rwa [core_eq_self h]
  | decorated inner t ih => exact ih

/-- What one decorator leaves alone is left alone by all. -/
theorem wrap_invariant {α : Type} {f : Expr → α} (h : ∀ inner t, f (.decorated inner t) = f inner)
    (ts : List Transform) (e : Expr) : f (e.wrap ts) = f e := by
  induction ts with
  | nil => rfl
  | cons t ts ih => exact (h _ t).trans ih

theorem core_wrap (ts : List Transform) (e : Expr) : (e.wrap ts).core = e.core :=
  wrap_invariant (fun _ _ ↦ rfl) ts e

theorem transforms_wrap (ts : List Transform) (e : Expr) :
    (e.wrap ts).transforms = ts ++ e.transforms := by
  induction ts with
  | nil => rfl
  | cons t ts ih => exact congrArg (t :: ·) ih

theorem alias?_core (e : Expr) : e.core.alias? = e.alias? := by
  conv_rhs => rw [← wrap_transforms_core e, wrap_invariant (f := alias?) fun _ _ ↦ rfl]

theorem symbol?_core (e : Expr) : e.core.symbol? = e.symbol? := by
  conv_rhs => rw [← wrap_transforms_core e, wrap_invariant (f := symbol?) fun _ _ ↦ rfl]

theorem setAlias_wrap (label : Option String) (ts : List Transform) (e : Expr) :
    (e.wrap ts).setAlias label = (e.setAlias label).map (wrap ts) := by
  induction ts with
  | nil => cases h : e.setAlias label <;> simp [wrap, h, Except.map]
  | cons t ts ih =>
    rw [wrap, setAlias, ih]
    cases e.setAlias label <;> rfl

theorem setAlias_eq (label : Option String) (e : Expr) :
    e.setAlias label = (e.core.setAlias label).map (wrap e.transforms) := by
  rw [← setAlias_wrap, wrap_transforms_core]

/-- Setting the alias in place leaves a new expression behind, or the old one if it is refused. -/
theorem labelInPlace_eq (label : Option String) (e : Expr) :
    e.labelInPlace label = match e.setAlias label with
      | .ok e' => (.ok (), e')
      | .error failure => (.error failure, e) := by
  induction e using setAlias.induct with
  | case5 inner t ih =>
    rw [labelInPlace, ih, setAlias]
    cases inner.setAlias label <;> rfl
  | case6 e => simp_all [labelInPlace, setAlias]
  | _ => rfl

/-! ## At the core -/

theorem Labelled.setAlias (h : Labelled label e e') : e.setAlias label = .ok e' := by
  cases h <;> rfl

theorem Labelled.kind_ne_decorated (h : Labelled label e e') : e'.kind ≠ .decorated := by
  cases h <;> simp [kind]

theorem Labelled.alias? (h : Labelled label e e') : e'.alias? = label := by
  cases h <;> rfl

theorem Labelled.symbol? (h : Labelled label e e') :
    e'.symbol? = e.symbol?.map fun c ↦ { c with alias? := label } := by
  cases h <;> rfl

/-- The former alias is all that is lost. -/
theorem Labelled.restore (h : Labelled label e e') : Labelled e.alias? e' e := by
  cases h <;> constructor

theorem exists_labelled_iff (label : Option String) (e : Expr) :
    (∃ e', Labelled label e e') ↔ e.kind ∈ [.tableDef, .columnDef, .position, .fragment] := by
  constructor
  · rintro ⟨e', h⟩
    cases h <;> simp [kind]
  · intro h
    cases e with
    | tableDef t => exact ⟨_, .tableDef t.name t.alias?⟩
    | columnDef c => exact ⟨_, .columnDef c.name c.table? c.alias?⟩
    | position p => exact ⟨_, .position p.number p.alias?⟩
    | fragment f => exact ⟨_, .fragment f.text f.alias?⟩
    | _ => simp [kind] at h

theorem setAlias_eq_error (hdecorated : e.kind ≠ .decorated)
    (h : ¬∃ node, Labelled label e node) :
    e.setAlias label = .error (.invalidArgument (.noAlias e.kind)) := by
  rw [exists_labelled_iff] at h
  cases e with
  | tableDef | columnDef | position | fragment => simp [kind] at h
  | decorated inner t => exact absurd rfl hdecorated
  | _ => rfl

/-! ## The whole expression -/

theorem Labelled.relabelled {node : Expr} (h : Labelled label e.core node) :
    Relabelled label e (node.wrap e.transforms) where
  transforms := by rw [transforms_wrap, transforms_eq_nil h.kind_ne_decorated, List.append_nil]
  node := by rwa [core_wrap, core_eq_self h.kind_ne_decorated]

/-- Setting an alias succeeds with the expression that differs in the alias of its core alone. -/
theorem setAlias_eq_ok_iff : e.setAlias label = .ok e' ↔ Relabelled label e e' := by
  constructor
  · intro h
    rw [setAlias_eq] at h
    by_cases hnode : ∃ node, Labelled label e.core node
    · obtain ⟨node, hnode⟩ := hnode
      rw [hnode.setAlias] at h
      cases h
      exact hnode.relabelled
    · rw [setAlias_eq_error e.core_kind_ne_decorated hnode] at h
      exact absurd h (by simp [Except.map])
  · rintro ⟨htransforms, hnode⟩
    rw [setAlias_eq, hnode.setAlias, ← htransforms]
    exact congrArg Except.ok e'.wrap_transforms_core

theorem exists_setAlias_iff (label : Option String) (e : Expr) :
    (∃ e', e.setAlias label = .ok e') ↔
      e.core.kind ∈ [.tableDef, .columnDef, .position, .fragment] := by
  rw [← exists_labelled_iff label]
  exact ⟨fun ⟨_, h⟩ ↦ ⟨_, (setAlias_eq_ok_iff.mp h).node⟩,
    fun ⟨_, h⟩ ↦ ⟨_, setAlias_eq_ok_iff.mpr h.relabelled⟩⟩

/-- A refusal names the kind of the core, however deep it is. -/
theorem eq_of_setAlias_eq_error {failure : RenderError} (h : e.setAlias label = .error failure) :
    failure = .invalidArgument (.noAlias e.core.kind) := by
  have hnode : ¬∃ node, Labelled label e.core node := by
    rintro ⟨node, hnode⟩
    rw [setAlias_eq_ok_iff.mpr hnode.relabelled] at h
    exact absurd h (by simp)
  rw [setAlias_eq, setAlias_eq_error e.core_kind_ne_decorated hnode] at h
  exact (Except.error.inj h).symm

namespace Relabelled

theorem alias? (h : Relabelled label e e') : e'.alias? = label := by
  rw [← alias?_core, h.node.alias?]

theorem symbol? (h : Relabelled label e e') :
    e'.symbol? = e.symbol?.map fun c ↦ { c with alias? := label } := by
  rw [← symbol?_core, h.node.symbol?, symbol?_core]

theorem restore (h : Relabelled label e e') : Relabelled e.alias? e' e where
  transforms := h.transforms.symm
  node := alias?_core e ▸ h.node.restore

end Relabelled

/-- The visible column of an expression bears the alias of the expression. -/
theorem alias?_of_symbol? {c : ColumnSymbol} (h : e.symbol? = some c) : c.alias? = e.alias? := by
  induction e using symbol?.induct with
  | case4 inner t ih => exact ih h
  | case5 e => simp_all [symbol?]
  | _ =>
    cases h
    rfl

/-- What SELECT prints for an expression agrees with what references to its visible column are
resolved by: the alias after AS is that of the column, in every query that selects the expression,
and stands for the column if nothing else goes by that name. -/
structure ShownAs (e : Expr) (c : ColumnSymbol) : Prop where
  same : c.alias? = e.alias?
  printed : ∀ (d d' : Domain) (text : String), e.render.outcome d = (.ok text, d') →
    (Entity.render .select e).outcome d = (.ok (withAlias text c.alias?), d')
  visible : ∀ (q : Query) (d : Domain), e ∈ q.select → c ∈ (q.enter d).scope.columns
  meant : ∀ r : ColumnRef,
    r.means c = true ↔ e.alias? = some r.name ∨ c.name? = some r.name
  resolved : ∀ (q : Query) (d : Domain) (label : String), e ∈ q.select → e.alias? = some label →
    AtMostOne (·.Bears label) (q.enter d).scope.columns →
    (Expr.columnRef ⟨label, none⟩).render.outcome (q.enter d) = (.ok label, q.enter d)

theorem shownAs_of_symbol? {c : ColumnSymbol} (h : e.symbol? = some c) : e.ShownAs c := by
  have halias : c.alias? = e.alias? := alias?_of_symbol? h
  have hvisible (q : Query) (d : Domain) (he : e ∈ q.select) : c ∈ (q.enter d).scope.columns :=
    List.mem_append_right _ (List.mem_filterMap.mpr ⟨e, he, h⟩)
  refine ⟨halias, fun d d' text htext ↦ ?_, hvisible, fun r ↦ ?_,
    fun q d label he hlabel honce ↦ ?_⟩
  · rw [Entity.outcome_render_select htext, halias]
  · rw [ColumnRef.means_iff, ColumnSymbol.Bears, halias]
  · rw [Expr.render, Rendering.outcome_ofScope,
      ColumnRef.text_of_alias honce ⟨c, hvisible q d he, halias.trans hlabel⟩]

end Expr

/-- An expression takes an alias exactly if a table or column definition, a position or a fragment
is inside its decorators.  Then it has this alias, and nothing else about it is changed, so that
setting the former alias brings it back; otherwise it stays as it was.  Decorators may be put around
it before or after.  The alias of its visible column, if it has one, is always its own, which is
what SELECT prints and what references are resolved by. -/
theorem setAlias_agrees (e : Expr) (label : Option String) :
    ((∃ e', e.setAlias label = .ok e') ↔
      e.core.kind ∈ [.tableDef, .columnDef, .position, .fragment]) ∧
    (∀ e', e.setAlias label = .ok e' ↔ e.Relabelled label e') ∧
    (∀ e', e.setAlias label = .ok e' →
      e.labelInPlace label = (.ok (), e') ∧ e'.alias? = label ∧
        e'.symbol? = e.symbol?.map (fun c ↦ { c with alias? := label }) ∧
        e'.setAlias e.alias? = .ok e) ∧
    (∀ failure, e.setAlias label = .error failure →
      e.labelInPlace label = (.error failure, e) ∧
        failure = .invalidArgument (.noAlias e.core.kind)) ∧
    (∀ ts, (e.wrap ts).setAlias label = (e.setAlias label).map (Expr.wrap ts)) ∧
    ∀ c, e.symbol? = some c → e.ShownAs c := by
  refine ⟨e.exists_setAlias_iff label, fun e' ↦ Expr.setAlias_eq_ok_iff, fun e' h ↦ ?_,
    fun failure h ↦ ?_, fun ts ↦ e.setAlias_wrap label ts, fun c ↦ Expr.shownAs_of_symbol?⟩
  · have hrelabelled : e.Relabelled label e' := Expr.setAlias_eq_ok_iff.mp h
    exact ⟨by rw [Expr.labelInPlace_eq, h], hrelabelled.alias?, hrelabelled.symbol?,
      Expr.setAlias_eq_ok_iff.mpr hrelabelled.restore⟩
  · exact ⟨by rw [Expr.labelInPlace_eq, h], Expr.eq_of_setAlias_eq_error h⟩

/-- The latest day on which there was an order. -/
def Expr.latestOrder (label : Option String) : Expr :=
  Expr.wrap [.function .max, .function .distinct] (.columnDef ⟨"created", some ⟨"o"⟩, label⟩)

def Query.latestOrders : Query :=
  { Query.empty with
    select := [.latestOrder (some "latest")]
    sources := [⟨"orders", some "o"⟩]
    orders := [⟨.columnRef ⟨"latest", none⟩, .descending⟩] }

/-- The alias of the day is set on the column inside both functions, is printed after them and can
be sorted by.  A bound value refuses an alias. -/
theorem latestOrder_setAlias_agrees :
    let former := Expr.latestOrder none
    let latest := Expr.latestOrder (some "latest")
    let bound := Expr.decorated (.literal (.bool true)) .bind
    let d := Query.latestOrders.enter .fresh
    former.setAlias (some "latest") = .ok latest ∧
      former.labelInPlace (some "latest") = (.ok (), latest) ∧
      latest.setAlias none = .ok former ∧
      bound.labelInPlace (some "latest") =
        (.error (.invalidArgument (.noAlias .literal)), bound) ∧
      (Entity.render .select latest).outcome d =
        (.ok ("MAX(DISTINCT(o.created))" ++ " AS " ++ "latest"), d) ∧
      (Expr.columnRef ⟨"latest", none⟩).render.outcome d = (.ok "latest", d) := by
  intro former latest bound d
  obtain ⟨-, -, hset, -⟩ := setAlias_agrees former (some "latest")
  obtain ⟨-, -, -, hrefused, -⟩ := setAlias_agrees bound (some "latest")
  obtain ⟨-, -, -, -, -, hshown⟩ := setAlias_agrees latest none
  obtain ⟨hplace, -, -, hrestored⟩ := hset latest rfl
  have hlatest := hshown ⟨some "created", some "latest", some "o"⟩ rfl
  exact ⟨rfl, hplace, hrestored, (hrefused _ rfl).1,
    hlatest.printed d d "MAX(DISTINCT(o.created))" rfl,
    hlatest.resolved .latestOrders .fresh "latest" (List.mem_singleton.mpr rfl) rfl (by decide)⟩

end ScopedSelect
