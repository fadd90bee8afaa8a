import ScopedSelect.Proofs.Condition.Joining
import ScopedSelect.Proofs.Render.Judgement
import ScopedSelect.Shorthand.Query

/-!
# Membership in a list of bound values

The values of a list are bound one after the other and leave one placeholder each.  The list is a
condition of its own, though, and a condition without operands has no text.  So with one value or
more the operand is a list in parentheses, and without any nothing stands after the operator
(`filterMember_renders`).
-/

namespace ScopedSelect

open Rendering

/-- A list of placeholders, one for each value. -/
def placeholderList (count : Nat) : String :=
  Text.parenthesized (",".intercalate (List.replicate count placeholder))

/-- What a list of so many values shows as an operand. -/
def listText (count : Nat) : String :=
  if count = 0 then "" else placeholderList count

theorem listText_eq_placeholderList_iff {count : Nat} :
    listText count = placeholderList count ↔ count ≠ 0 := by
  constructor
  · rintro h rfl
    exact absurd h (by decide)
  · exact fun h ↦ if_neg h

namespace Folding

theorem text_pair_replicate (count : Nat) :
    (combining .pair).text (List.replicate count placeholder) = listText count := by
  rw [text_combining rfl]
  cases count with
  | zero => rfl
  | succ count =>
    have hfirst : ",".intercalate (placeholder :: List.replicate count placeholder) ≠ "" :=
      Text.intercalate_ne_empty "," (by decide)
    exact enclose_of_ne hfirst

theorem text_member (left right : String) :
    (combining (.infixed .member)).text [left, right] =
      Text.parenthesized (left ++ " IN " ++ right) := by
  have happly : Operator.member.apply left right = left ++ " IN " ++ right := by
    simp [Operator.apply, Operator.member, String.append_assoc]
  rw [text_infixed, happly]

end Folding

namespace Shorthand

variable {s : Scope}

/-- By induction on the values: each is bound after those before it. -/
theorem renderAll_bound_gives (values : List Value) :
    (renderAll (values.map bound)).Gives s (.ok (List.replicate values.length placeholder))
      values := by
  induction values with
  | nil => exact .pure []
  | cons v values ih =>
    have hfirst : (bound v).render.Gives s (.ok placeholder) [v] := .bound v
    exact hfirst.bind (ih.map (placeholder :: ·))

theorem tuple_bound_gives (values : List Value) :
    (tuple (values.map bound)).render.Gives s (.ok (listText values.length)) values := by
  rw [← Folding.text_pair_replicate]
  exact (renderAll_bound_gives values).map (Folding.combining .pair).text

/-- The reference is rendered first, and the values follow what it binds itself. -/
theorem outcome_member (column : String) (values : List Value) (d : Domain) :
    (member column (tuple (values.map bound))).render.outcome d =
      match (reference column).render.outcome d with
      | (.ok c, d') =>
        (.ok (Text.parenthesized (c ++ " IN " ++ listText values.length)), d'.bindAll values)
      | (.error e, d') => (.error e, d') := by
  have hrender : (member column (tuple (values.map bound))).render = do
      let c ← (reference column).render
      let list ← (tuple (values.map bound)).render
      return (Folding.combining (.infixed .member)).text [c, list] :=
    Expr.render_pair (.combining (.infixed .member)) _ _
  rw [hrender, outcome_bind]
  rcases (reference column).render.outcome d with ⟨e | c, d'⟩
  · rfl
  · have hlist := (tuple_bound_gives (s := d'.scope) values).map fun list ↦
      (Folding.combining (.infixed .member)).text [c, list]
    exact (hlist d' rfl).trans (by rw [Folding.text_member])

end Shorthand

/-- A condition on membership is always accepted, and it has a text if the reference to its column
has one.  It binds exactly the values of the list, after what the reference binds.  The operand is
the list of their placeholders exactly if there is a value. -/
theorem filterMember_renders (q : Query) (column : String) (values : List Value) :
    ∃ condition : Expr,
      q.filterMember column values = .ok { q with filters := q.filters ++ [some condition] } ∧
      ∀ d, match (Shorthand.reference column).render.outcome d with
        | (.error e, d') => condition.render.outcome d = (.error e, d')
        | (.ok c, d') =>
          ∃ text, condition.render.outcome d = (.ok text, d'.bindAll values) ∧
            (d'.bindAll values).boundValues = d'.boundValues ++ values ∧
            text = Text.parenthesized (c ++ " IN " ++ listText values.length) ∧
            (text = Text.parenthesized (c ++ " IN " ++ placeholderList values.length) ↔
              values ≠ []) := by
  refine ⟨Shorthand.member column (Shorthand.tuple (values.map Shorthand.bound)), rfl, fun d ↦ ?_⟩
  rw [Shorthand.outcome_member]
  rcases (Shorthand.reference column).render.outcome d with ⟨e | c, d'⟩
  · rfl
  · refine ⟨_, rfl, Domain.boundValues_bindAll d' values, rfl, ?_⟩
    have hlist : listText values.length = placeholderList values.length ↔ values ≠ [] :=
      listText_eq_placeholderList_iff.trans (not_congr List.length_eq_zero_iff)
    rw [← hlist]
    simp [Text.parenthesized]

/-- All orders, before it is said of which customers. -/
def Query.bareOrders : Query :=
  { Query.empty with sources := [⟨"orders", some "o"⟩] }

theorem bareOrders_filterMember :
    ∃ condition : Expr,
      Query.bareOrders.filterMember "o.customer" [.int64 7, .int64 9] =
        .ok { Query.bareOrders with filters := [some condition] } ∧
      (condition.render.outcome (Query.bareOrders.enter .fresh)).1 =
        .ok "(o.customer IN (?,?))" ∧
      (condition.render.outcome (Query.bareOrders.enter .fresh)).2.boundValues =
        [.int64 7, .int64 9] := by
  obtain ⟨condition, hfilter, hrender⟩ :=
    filterMember_renders .bareOrders "o.customer" [.int64 7, .int64 9]
  obtain ⟨text, houtcome, hvalues, htext, -⟩ := hrender (Query.bareOrders.enter .fresh)
  refine ⟨condition, hfilter, ?_, ?_⟩
  · rw [houtcome, htext]
    rfl
  · rw [houtcome]
    exact hvalues

/-- Without a value nothing stands after the operator, not even the parentheses. -/
theorem emptyMember_dangles :
    (¬∀ (q : Query) (column : String) (values : List Value) (d d' : Domain) (c : String),
      (Shorthand.reference column).render.outcome d = (.ok c, d') →
        ∃ condition : Expr,
          q.filterMember column values =
            .ok { q with filters := q.filters ++ [some condition] } ∧
          (condition.render.outcome d).1 =
            .ok (Text.parenthesized (c ++ " IN " ++ placeholderList values.length))) ∧
    ∃ q : Query, Query.bareOrders.filterMember "o.customer" [] = .ok q ∧
      q.build = .ok ("FROM orders AS o WHERE (o.customer IN )", []) := by
  refine ⟨fun h ↦ ?_, _, rfl, rfl⟩
  obtain ⟨condition, hfilter, htext⟩ :=
    h .bareOrders "o.customer" [] (Query.bareOrders.enter .fresh) _ "o.customer" rfl
  have hfilters : [some (Shorthand.member "o.customer" (Shorthand.tuple []))] = [some condition] :=
    congrArg Query.filters (Except.ok.inj hfilter)
  have hempty : (condition.render.outcome (Query.bareOrders.enter .fresh)).1 =
      .ok "(o.customer IN )" := by
    obtain rfl := Option.some.inj (List.singleton_inj.mp hfilters)
    rfl
  rw [hempty] at htext
  exact absurd (Except.ok.inj htext) (by decide)

end ScopedSelect
