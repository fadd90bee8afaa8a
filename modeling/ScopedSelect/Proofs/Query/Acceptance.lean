import Mathlib.Logic.Basic
import ScopedSelect.Render.Tree
import ScopedSelect.Shorthand.Query

/-!
# Which conditions a join accepts

A condition may stand in a join if it may stand in WHERE, and it is refused otherwise.  Several
conditions that come in one call are joined first, though, and it is their conjunction that is
checked: a condition, whatever its operands are.  So what is refused alone is accepted together with
others, while in calls of their own the same conditions are checked one by one (`join_accepts`).
-/

namespace ScopedSelect

/-- The refusal of an expression that may not stand in WHERE. -/
def Error.notInWhere (e : Expr) : Error :=
  .invalidArgument (.notInClause e.kind .filter)

theorem Item.ofExpr_eq_error_iff {e : Expr} {error : Error} :
    ofExpr .filter e = .error error ↔ e.supports .filter = false ∧ error = .notInWhere e := by
  unfold ofExpr
  split
  next h => simp [h]
  next h => simp [h, eq_comm, Error.notInWhere]

theorem exists_ok_iff {ε α : Type} {result : Except ε α} :
    (∃ a, result = .ok a) ↔ ∀ error, result ≠ .error error := by
  cases result <;> simp

/-- All of the conditions may stand in WHERE. -/
def AllSupported (conditions : List Expr) : Prop :=
  ∀ e ∈ conditions, e.supports .filter = true

theorem exists_alone_iff {conditions : List Expr} :
    (∃ e, conditions = [e] ∧ e.supports .filter = false) ↔
      conditions.length ≤ 1 ∧ ¬AllSupported conditions := by
  rcases conditions with _ | ⟨e, _ | ⟨e', conditions⟩⟩ <;> simp [AllSupported]

/-- A result that depends on conditions which came in one call.  It is refused because of a
condition that came alone and for no other reason, so that it is as good as a check of each one only
if there is one at most, or nothing to refuse. -/
structure ChecksAlone (conditions : List Expr) (result : Except Error Query) : Prop where
  accepted : (∃ q, result = .ok q) ↔ 2 ≤ conditions.length ∨ AllSupported conditions
  refused : ∀ error, result = .error error ↔
    ∃ e, conditions = [e] ∧ e.supports .filter = false ∧ error = .notInWhere e
  checksEach_iff : ((∃ q, result = .ok q) ↔ AllSupported conditions) ↔
    conditions.length ≤ 1 ∨ AllSupported conditions

theorem ChecksAlone.of_refused {conditions : List Expr} {result : Except Error Query}
    (hrefused : ∀ error, result = .error error ↔
      ∃ e, conditions = [e] ∧ e.supports .filter = false ∧ error = .notInWhere e) :
    ChecksAlone conditions result := by
  have halone : (∀ error, result ≠ .error error) ↔
      ¬∃ e, conditions = [e] ∧ e.supports .filter = false := by
    simp only [ne_eq, hrefused]
    constructor
    · rintro h ⟨e, he, hsupported⟩
      exact h _ ⟨e, he, hsupported, rfl⟩
    · rintro h error ⟨e, he, hsupported, -⟩
      exact h ⟨e, he, hsupported⟩
  have haccepted : (∃ q, result = .ok q) ↔ 2 ≤ conditions.length ∨ AllSupported conditions := by
    rw [exists_ok_iff, halone, exists_alone_iff, not_and_or, not_not, Nat.not_le]
    exact Iff.rfl
  refine ⟨haccepted, hrefused, ?_⟩
  rw [haccepted]
  by_cases hall : AllSupported conditions
  · simp [hall]
  · simp only [hall, or_false, iff_false, Nat.not_le]
    omega

namespace Query

variable {conditions : List Expr} {error : Error}

/-- Only a condition that comes alone can be refused. -/
theorem conjunctionOf_eq_error_iff :
    conjunctionOf conditions = .error error ↔
      ∃ e, conditions = [e] ∧ e.supports .filter = false ∧ error = .notInWhere e := by
  rcases conditions with _ | ⟨e, _ | ⟨e', conditions⟩⟩
  · simp [conjunctionOf]
  · have hsingle : conjunctionOf [e] = .error error ↔ Item.ofExpr .filter e = .error error := by
      cases h : Item.ofExpr .filter e <;> simp [conjunctionOf, h, Except.map]
    rw [hsingle, Item.ofExpr_eq_error_iff]
    simp
  · have hconjunction : conjunctionOf (e :: e' :: conditions) =
        .ok (some ⟨Shorthand.allOf (e :: e' :: conditions), rfl⟩) := rfl
    simp [hconjunction]

/-- Whatever is done to the query with the conditions. -/
theorem checksAlone_of_conjunctionOf (conditions : List Expr)
    (f : Option (Item .filter) → Query) :
    ChecksAlone conditions (do return f (← conjunctionOf conditions)) := by
  refine .of_refused fun error ↦ ?_
  rw [← conjunctionOf_eq_error_iff]
  cases conjunctionOf conditions <;> simp [bind, Except.bind, pure, Except.pure]

/-- Add conditions to the first join of a table, in a call for each of them. -/
def joinOnEach (q : Query) (table : String) (conditions : List Expr) : Except Error Query :=
  conditions.foldlM (fun q e ↦ q.joinOn table [e]) q

section OneByOne

variable (q : Query) (table : String) {e : Expr}

theorem joinOn_of_supported (h : e.supports .filter = true) :
    q.joinOn table [e] = .ok (q.augmentJoin table (some ⟨e, h⟩)) := by
  simp only [joinOn, conjunctionOf, Item.ofExpr, dif_pos h]
  rfl

theorem joinOn_of_not_supported (h : e.supports .filter = false) :
    q.joinOn table [e] = .error (.notInWhere e) := by
  simp only [joinOn, conjunctionOf, Item.ofExpr, h]
  rfl

/-- By induction on the conditions: those before the first refusal are added, whatever the joins of
the query are by then. -/
theorem joinOnEach_eq_error_iff :
    q.joinOnEach table conditions = .error error ↔
      ∃ e, conditions.find? (fun e ↦ !e.supports .filter) = some e ∧ error = .notInWhere e := by
  unfold joinOnEach
  induction conditions generalizing q with
  | nil => simp [pure, Except.pure]
  | cons e conditions ih =>
    rw [List.foldlM_cons]
    cases h : e.supports .filter with
    | true =>
      rw [joinOn_of_supported q table h, List.find?_cons_of_neg (by simp [h])]
      exact ih _
    | false =>
      rw [joinOn_of_not_supported q table h, List.find?_cons_of_pos (by simp [h])]
      simp [bind, Except.bind, eq_comm]

theorem joinOnEach_isOk_iff :
    (∃ q', q.joinOnEach table conditions = .ok q') ↔ AllSupported conditions := by
  have hnone : (∀ error, q.joinOnEach table conditions ≠ .error error) ↔
      conditions.find? (fun e ↦ !e.supports .filter) = none := by
    simp only [ne_eq, joinOnEach_eq_error_iff, Option.eq_none_iff_forall_ne_some]
    constructor
    · exact fun h e he ↦ h _ ⟨e, he, rfl⟩
    · rintro h error ⟨e, he, -⟩
      exact h e he
  rw [exists_ok_iff, hnone, List.find?_eq_none]
  simp [AllSupported]

end OneByOne
end Query

/-- Several conditions in one call, with a new join or onto an old one, are refused only if there is
one condition and it may not stand in WHERE.  In calls of their own they are accepted exactly if all
of them may stand there, and the first that may not is what the refusal is about. -/
theorem join_accepts (q : Query) (table : String) (conditions : List Expr) :
    (∀ kind label, ChecksAlone conditions (q.join kind table label conditions)) ∧
    ChecksAlone conditions (q.joinOn table conditions) ∧
    ((∃ q', q.joinOnEach table conditions = .ok q') ↔ AllSupported conditions) ∧
    ∀ error, q.joinOnEach table conditions = .error error ↔
      ∃ e, conditions.find? (fun e ↦ !e.supports .filter) = some e ∧ error = .notInWhere e := by
  refine ⟨fun kind label ↦ ?_, ?_, q.joinOnEach_isOk_iff table, fun error ↦ ?_⟩
  · exact Query.checksAlone_of_conjunctionOf conditions fun on? ↦
      q.addJoin (.ofTable ⟨table, label⟩ kind on?)
  · exact Query.checksAlone_of_conjunctionOf conditions fun on? ↦ q.augmentJoin table on?
  · exact q.joinOnEach_eq_error_iff table

/-- All users, before their orders are joined. -/
def Query.bareUsers : Query :=
  { Query.empty with sources := [⟨"users", some "u"⟩] }

/-- The definition of a column, which may stand in SELECT and nowhere else. -/
def Expr.paidColumn : Expr :=
  .columnDef ⟨"paid", some ⟨"o"⟩, none⟩

def Expr.ofUser : Expr :=
  Shorthand.equal "o.user" "u.id"

/-- The definition of a column is refused alone and accepted beside a condition. -/
theorem paidColumn_accepted :
    (¬∀ (q : Query) (kind : JoinKind) (table : String) (label : Option String)
      (conditions : List Expr), (∃ q', q.join kind table label conditions = .ok q') ↔
        AllSupported conditions) ∧
    Query.bareUsers.join .plain "orders" (some "o") [.paidColumn] =
      .error (.notInWhere .paidColumn) ∧
    ∃ q, Query.bareUsers.join .plain "orders" (some "o") [.paidColumn, .ofUser] = .ok q ∧
      q.build = .ok ("FROM users AS u JOIN orders AS o ON (o.paid AND (o.user = u.id))", []) := by
  refine ⟨fun h ↦ ?_, rfl, _, rfl, rfl⟩
  have hall := (h .bareUsers .plain "orders" (some "o") [.paidColumn, .ofUser]).mp ⟨_, rfl⟩
  exact absurd (hall .paidColumn List.mem_cons_self) (by decide)

end ScopedSelect
