import ScopedSelect.Proofs.Condition.Joining
import ScopedSelect.Proofs.Tree.Traversal

/-!
# How a condition groups its operands

A `Grouping` is a condition tree over any leaves: operands that are joined by one operator or listed
with commas, at least two of them, and null tests.  Over expressions it is a condition, and over
texts it is what is read in the text of one.  The text of a condition is the text of its grouping
over the texts of its leaves (`Grouping.render_toExpr`).
-/

namespace ScopedSelect

/-- What joins the operands of a group: a standard operator, or the commas of a list. -/
inductive Connective where
  | operator (op : Operator) (standard : op ∈ Operator.standard)
  | comma

namespace Connective

def combinator : Connective → Combinator
  | .operator op _ => .infixed op
  | .comma => .pair

def separator : Connective → String
  | .operator op _ => " " ++ op.text ++ " "
  | .comma => ","

theorem separator?_combinator (c : Connective) : c.combinator.separator? = some c.separator := by
  cases c <;> rfl

end Connective

inductive Grouping (α : Type) where
  | leaf (a : α)
  | joined (c : Connective) (first second : Grouping α) (rest : List (Grouping α))
  | nullTest (negated : Bool) (operand : Grouping α)

namespace Grouping

variable {α β : Type}

theorem induction {P : Grouping α → Prop} (leaf : ∀ a, P (.leaf a))
    (joined : ∀ c first second rest, P first → P second → (∀ g ∈ rest, P g) →
      P (.joined c first second rest))
    (nullTest : ∀ negated operand, P operand → P (.nullTest negated operand)) : ∀ g, P g := by
  intro g
  refine Grouping.rec (motive_1 := P) (motive_2 := fun gs ↦ ∀ g ∈ gs, P g) leaf joined nullTest
    ?_ ?_ g
  · simp
  · intro g gs hg hgs
    simpa using ⟨hg, hgs⟩

mutual

/-- Put something together from the leaves of a grouping, group by group. -/
def fold (leaf : α → β) (group : Connective → List β → β) (test : Bool → β → β) : Grouping α → β
  | .leaf a => leaf a
  | .joined c first second rest =>
    group c (first.fold leaf group test :: second.fold leaf group test ::
      foldAll leaf group test rest)
  | .nullTest negated operand => test negated (operand.fold leaf group test)

def foldAll (leaf : α → β) (group : Connective → List β → β) (test : Bool → β → β) :
    List (Grouping α) → List β
  | [] => []
  | g :: gs => g.fold leaf group test :: foldAll leaf group test gs

end

theorem foldAll_eq_map (leaf : α → β) (group : Connective → List β → β) (test : Bool → β → β)
    (gs : List (Grouping α)) : foldAll leaf group test gs = gs.map (fold leaf group test) := by
  induction gs with
  | nil => rfl
  | cons g gs ih => rw [foldAll, ih, List.map_cons]

def leaves (g : Grouping α) : List α :=
  g.fold ([·]) (fun _ as ↦ as.flatten) (fun _ as ↦ as)

theorem leaves_joined (c : Connective) (first second : Grouping α) (rest : List (Grouping α)) :
    (joined c first second rest).leaves =
      first.leaves ++ (second.leaves ++ rest.flatMap leaves) := by
  rw [leaves, fold, foldAll_eq_map, List.flatten_cons, List.flatten_cons, ← List.flatMap_def]
  rfl

theorem leaves_nullTest (negated : Bool) (operand : Grouping α) :
    (nullTest negated operand).leaves = operand.leaves := by
  rw [leaves, fold]
  rfl

/-- The condition with these leaves. -/
def toExpr (g : Grouping Expr) : Expr :=
  g.fold id (fun c operands ↦ .condition (.combining c.combinator operands)) fun negated operand ↦
    .condition (.combining (if negated then .isNotNull else .isNull) [operand, .nothing])

/-- What stands behind the operand of a null test. -/
def testSuffix (negated : Bool) : String :=
  if negated then " IS NOT NULL" else " IS NULL"

/-- The text in which the grouping is read. -/
def text (g : Grouping String) : String :=
  g.fold id (fun c texts ↦ Text.parenthesized (c.separator.intercalate texts)) fun negated text ↦
    Text.parenthesized (text ++ testSuffix negated)

theorem text_joined (c : Connective) (first second : Grouping String)
    (rest : List (Grouping String)) :
    (joined c first second rest).text = Text.parenthesized
      (c.separator.intercalate (first.text :: second.text :: rest.map text)) := by
  rw [text, fold, foldAll_eq_map]
  rfl

theorem text_nullTest (negated : Bool) (operand : Grouping String) :
    (nullTest negated operand).text = Text.parenthesized (operand.text ++ testSuffix negated) := by
  rw [text, fold]
  rfl

mutual

/-- The grouping with its leaves rendered one after the other, from left to right. -/
def mapM (render : α → Rendering β) : Grouping α → Rendering (Grouping β)
  | .leaf a => do return .leaf (← render a)
  | .joined c first second rest => do
    let first ← first.mapM render
    let second ← second.mapM render
    return .joined c first second (← mapAllM render rest)
  | .nullTest negated operand => do return .nullTest negated (← operand.mapM render)

def mapAllM (render : α → Rendering β) : List (Grouping α) → Rendering (List (Grouping β))
  | [] => pure []
  | g :: gs => do
    let g ← g.mapM render
    return g :: (← mapAllM render gs)

end

/-- The grouping of the leaves' texts. -/
def read (g : Grouping Expr) : Rendering (Grouping String) :=
  g.mapM Expr.render

end Grouping

theorem Folding.text_connective (c : Connective) (first second : String) (rest : List String) :
    (Folding.combining c.combinator).text (first :: second :: rest) =
      Text.parenthesized (c.separator.intercalate (first :: second :: rest)) := by
  have hmapped : (first :: second :: rest).map (Folding.combining c.combinator).mapped =
      first :: second :: rest :=
    List.map_id _
  have hjoined : (Folding.combining c.combinator).accumulate (first :: second :: rest) =
      some (c.separator.intercalate (first :: second :: rest)) := by
    rw [accumulate_eq_joined? rfl c.separator?_combinator, hmapped]
    rfl
  have hne : c.separator.intercalate (first :: second :: rest) ≠ "" := by
    cases c <;> simp [Connective.separator]
  rw [Folding.text, hjoined, enclose, if_neg hne]

theorem Folding.text_nullTest (negated : Bool) (operand : String) :
    (Folding.combining (if negated then .isNotNull else .isNull)).text [operand, ""] =
      Text.parenthesized (operand ++ Grouping.testSuffix negated) := by
  cases negated <;>
    simp [Folding.text, Folding.accumulate, Folding.combining, Folding.step, Folding.mapped,
      Folding.enclose, Combinator.reduce, Grouping.testSuffix]

namespace Grouping

theorem mapM_map_toExpr {gs : List (Grouping Expr)}
    (h : ∀ g ∈ gs, g.toExpr.render = do return (← g.read).text) :
    (gs.map toExpr).mapM Expr.render = do return (← mapAllM Expr.render gs).map text := by
  induction gs with
  | nil => simp [mapAllM]
  | cons g gs ih =>
    have hg := h g List.mem_cons_self
    have hgs := ih fun g' hg' ↦ h g' (List.mem_cons_of_mem g hg')
    rw [read] at hg
    simp [mapAllM, hg, hgs]

/-- The text of a condition tree is that of its grouping over the texts of its leaves. -/
theorem render_toExpr (g : Grouping Expr) : g.toExpr.render = do return (← g.read).text := by
  induction g using Grouping.induction with
  | leaf e => simp [toExpr, read, mapM, text, fold]
  | joined c first second rest hfirst hsecond hrest =>
    have hexpr : (joined c first second rest).toExpr =
        .condition (.combining c.combinator ((first :: second :: rest).map toExpr)) := by
      rw [toExpr, fold, foldAll_eq_map]
      rfl
    have hall : ∀ g ∈ first :: second :: rest, g.toExpr.render = do return (← g.read).text := by
      simpa using ⟨hfirst, hsecond, hrest⟩
    calc
      _ = do
          let texts ← ((first :: second :: rest).map toExpr).mapM Expr.render
          return (Folding.combining c.combinator).text texts := by
        rw [hexpr, Expr.render_condition, Condition.combining]
      _ = do
          let readings ← mapAllM Expr.render (first :: second :: rest)
          return (Folding.combining c.combinator).text (readings.map text) := by
        rw [mapM_map_toExpr hall, bind_assoc]
        rfl
      _ = (do return (← (joined c first second rest).read).text : Rendering String) := by
        simp [read, mapM, mapAllM, text_joined, Folding.text_connective]
  | nullTest negated operand hoperand =>
    have hexpr : (nullTest negated operand).toExpr = .condition (.combining
        (if negated then .isNotNull else .isNull) [operand.toExpr, .nothing]) := by
      rw [toExpr, fold]
      rfl
    calc
      _ = do
          let text ← operand.toExpr.render
          return (Folding.combining (if negated then .isNotNull else .isNull)).text [text, ""] := by
        simp [hexpr, Expr.render_condition, Condition.combining, Expr.render]
      _ = do
          let reading ← operand.read
          return Text.parenthesized (reading.text ++ testSuffix negated) := by
        simp [hoperand, Folding.text_nullTest]
      _ = (do return (← (nullTest negated operand).read).text : Rendering String) := by
        simp [read, mapM, text_nullTest]

end Grouping
end ScopedSelect
