import ScopedSelect.Condition.Basic

/-!
# Folding operands as joining their texts

An infix operator and the comma of a list write the same text between any two operands.  Folding by
one of them is joining: what is accumulated is the seed and the mapped texts, in their order, with
the separator between them (`Folding.accumulate_eq_joined?`).
-/

namespace ScopedSelect

/-- What stands between two operands of the same combinator. -/
def Combinator.separator? : Combinator → Option String
  | .infixed op => some (" " ++ op.text ++ " ")
  | .pair => some ","
  | _ => none

theorem Combinator.reduce_of_separator? {c : Combinator} {separator : String}
    (h : c.separator? = some separator) (accumulated next : String) :
    c.reduce accumulated next = accumulated ++ separator ++ next := by
  cases c with
  | infixed op =>
    obtain rfl := Option.some.inj h
    simp [reduce, Operator.apply, String.append_assoc]
  | pair =>
    obtain rfl := Option.some.inj h
    rfl
  | isNull | isNotNull | fullText | custom => simp [separator?] at h

theorem Text.intercalate_ne_empty (separator : String) {text : String} {texts : List String}
    (h : text ≠ "") : separator.intercalate (text :: texts) ≠ "" := by
  cases texts with
  | nil => simpa using h
  | cons next texts => simp [h]

/-- The texts with a separator between them, if there are any. -/
def joined? (separator : String) : List String → Option String
  | [] => none
  | texts => some (separator.intercalate texts)

namespace Folding

variable {f : Folding} {c : Combinator} {separator : String}

theorem step_joined? (hc : f.combinator? = some c) (hs : c.separator? = some separator)
    (done : List String) (next : String) :
    some (f.step (joined? separator done) next) = joined? separator (done ++ [next]) := by
  cases done with
  | nil => simp [joined?, step]
  | cons text done =>
    have happend : separator.intercalate ((text :: done) ++ [next]) =
        separator.intercalate (text :: done) ++ separator ++ next := by
      rw [String.intercalate_append_of_ne_nil (by simp) (by simp), String.intercalate_singleton]
    have hjoined : joined? separator ((text :: done) ++ [next]) =
        some (separator.intercalate ((text :: done) ++ [next])) := rfl
    rw [hjoined, happend]
    simp only [joined?, step, hc, c.reduce_of_separator? hs]

/-- By induction on the operands that are left: those that are done stay joined. -/
theorem foldl_joined? (hc : f.combinator? = some c) (hs : c.separator? = some separator)
    (done texts : List String) :
    texts.foldl (fun acc text ↦ some (f.step acc (f.mapped text))) (joined? separator done) =
      joined? separator (done ++ texts.map f.mapped) := by
  induction texts generalizing done with
  | nil => simp
  | cons text texts ih =>
    rw [List.foldl_cons, step_joined? hc hs, ih]
    simp

/-- What is accumulated is the seed and the mapped texts of all operands, joined. -/
theorem accumulate_eq_joined? (hc : f.combinator? = some c) (hs : c.separator? = some separator)
    (texts : List String) :
    f.accumulate texts = joined? separator (f.seed?.toList ++ texts.map f.mapped) := by
  have hseed : f.seed? = joined? separator f.seed?.toList := by
    cases f.seed? <;> simp [joined?]
  rw [← foldl_joined? hc hs, ← hseed]
  rfl

/-- With a combinator alone, the texts of the operands are joined and enclosed. -/
theorem text_combining (hs : c.separator? = some separator) (texts : List String) :
    (combining c).text texts = enclose (joined? separator texts) := by
  have hmapped : texts.map (combining c).mapped = texts := List.map_id texts
  rw [text, accumulate_eq_joined? (f := combining c) rfl hs, hmapped]
  rfl

/-- Two operands of an infix operator always show something: the operator stands between them. -/
theorem text_infixed (op : Operator) (left right : String) :
    (combining (.infixed op)).text [left, right] = Text.parenthesized (op.apply left right) := by
  have hshown : op.apply left right ≠ "" := by simp [Operator.apply]
  exact enclose_of_ne hshown

end Folding
end ScopedSelect
