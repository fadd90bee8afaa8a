import ScopedSelect.Proofs.Text.Marks

/-!
# Balanced parentheses

A text is balanced if no parenthesis closes before it was opened and none stays open.  Whether it is
can be seen by one scan that counts the groups that are open.  The scan for a wrapped text is that
scan on what stands inside (`wrapped_iff_closes`), so that taking the pair of parentheses away
leaves a balanced text.
-/

namespace ScopedSelect
namespace Text

/-- Up to any place there are as many opening parentheses as closing ones or more, and in the whole
text there are as many. -/
structure Balanced (s : String) : Prop where
  fronts : ∀ front, front <+: s.toList → front.count ')' ≤ front.count '('
  total : s.toList.count ')' = s.toList.count '('

/-- Read on with `depth` groups open: only an open group may close, and none is open at the end. -/
def closes (depth : Nat) : List Char → Bool
  | [] => depth == 0
  | c :: rest =>
    if c = '(' then closes (depth + 1) rest
    else if c = ')' then depth != 0 && closes (depth - 1) rest
    else closes depth rest

section Scan

variable {cs xs ys : List Char} {depth : Nat}

theorem forall_front_cons_iff {P : List Char → Prop} {c : Char} :
    (∀ front, front <+: c :: cs → P front) ↔ P [] ∧ ∀ front, front <+: cs → P (c :: front) := by
  constructor
  · intro h
    refine ⟨h [] List.nil_prefix, fun front hfront ↦ h (c :: front) ?_⟩
    exact List.prefix_cons_iff.mpr (.inr ⟨front, rfl, hfront⟩)
  · rintro ⟨hnil, hcons⟩ front hfront
    rcases List.prefix_cons_iff.mp hfront with rfl | ⟨rest, rfl, hrest⟩
    · exact hnil
    · exact hcons rest hrest

theorem closes_iff : closes depth cs = true ↔
    (∀ front, front <+: cs → front.count ')' ≤ depth + front.count '(') ∧
      cs.count ')' = depth + cs.count '(' := by
  induction cs generalizing depth with
  | nil =>
    have hdepth : 0 = depth ↔ depth = 0 := eq_comm
    simp [closes, hdepth]
  | cons c cs ih =>
    rw [forall_front_cons_iff]
    by_cases hopening : c = '('
    · subst hopening
      have hscan : closes depth ('(' :: cs) = closes (depth + 1) cs := rfl
      rw [hscan, ih]
      simp [Nat.add_assoc, Nat.add_comm 1]
    by_cases hclosing : c = ')'
    · subst hclosing
      have hscan : closes depth (')' :: cs) = (depth != 0 && closes (depth - 1) cs) := rfl
      rw [hscan, Bool.and_eq_true, bne_iff_ne, ih]
      simp only [List.count_nil, List.count_cons_self, ne_eq, Char.reduceEq, not_false_eq_true,
        List.count_cons_of_ne, Nat.zero_le, true_and]
      constructor
      · rintro ⟨hpos, hfronts, htotal⟩
        refine ⟨fun front hfront ↦ ?_, by omega⟩
        have hle := hfronts front hfront
        omega
      · rintro ⟨hfronts, htotal⟩
        have hpos := hfronts [] List.nil_prefix
        simp only [List.count_nil] at hpos
        refine ⟨by omega, fun front hfront ↦ ?_, by omega⟩
        have hle := hfronts front hfront
        omega
    · have hscan : closes depth (c :: cs) = closes depth cs := by
        rw [closes, if_neg hopening, if_neg hclosing]
      rw [hscan, ih]
      simp [List.count_cons_of_ne hopening, List.count_cons_of_ne hclosing]

/-- What closes all groups that it opens makes no difference before something else. -/
theorem closes_append (h : closes depth xs = true) (outer : Nat) :
    closes (outer + depth) (xs ++ ys) = closes outer ys := by
  induction xs generalizing depth with
  | nil =>
    obtain rfl : depth = 0 := by simpa [closes] using h
    rfl
  | cons c xs ih =>
    rw [List.cons_append]
    by_cases hopening : c = '('
    · subst hopening
      have hrest : closes (depth + 1) xs = true := h
      exact ih hrest
    by_cases hclosing : c = ')'
    · subst hclosing
      obtain ⟨hpos, hrest⟩ : depth ≠ 0 ∧ closes (depth - 1) xs = true := by
        simpa [closes] using h
      have hscan : closes (outer + depth) (')' :: (xs ++ ys)) =
          closes (outer + (depth - 1)) (xs ++ ys) := by
        have hsub : outer + depth - 1 = outer + (depth - 1) := by omega
        simp [closes, hsub, hpos]
      rw [hscan, ih hrest]
    · simp only [closes, if_neg hopening, if_neg hclosing] at h ⊢
      exact ih h

theorem closes_of_notMem (hopening : '(' ∉ cs) (hclosing : ')' ∉ cs) : closes 0 cs = true := by
  refine closes_iff.mpr ⟨fun front hfront ↦ ?_, ?_⟩
  · rw [List.count_eq_zero.mpr fun h ↦ hclosing (hfront.subset h)]
    exact Nat.zero_le _
  · rw [List.count_eq_zero.mpr hclosing, List.count_eq_zero.mpr hopening]

/-- Before a last parenthesis, a group is open for longer than any group inside. -/
theorem closesLast_eq_closes (depth : Nat) (inner : List Char) :
    closesLast (depth + 1) (inner ++ [')']) = closes depth inner := by
  induction inner generalizing depth with
  | nil => simp [closesLast, closes]
  | cons c inner ih =>
    rw [List.cons_append, closesLast, closes, ih]
    split
    · rfl
    split
    · cases depth with
      | zero => simp
      | succ depth => simp [ih]
    · exact ih depth

theorem wrapped_iff_closes :
    wrapped cs = true ↔ ∃ inner, cs = '(' :: (inner ++ [')']) ∧ closes 0 inner = true := by
  have hscan (inner : List Char) :
      closesLast 0 ('(' :: (inner ++ [')'])) = closes 0 inner := closesLast_eq_closes 0 inner
  constructor
  · intro h
    obtain ⟨inner, rfl, -⟩ := exists_of_wrapped h
    refine ⟨inner, rfl, ?_⟩
    rw [← hscan]
    simp only [wrapped, Bool.and_eq_true] at h
    exact h.2
  · rintro ⟨inner, rfl, hinner⟩
    have hlast : ('(' :: (inner ++ [')'])).getLast? = some ')' := by
      rw [← List.cons_append, List.getLast?_concat]
    simp [wrapped, hscan, hlast, hinner]

end Scan

theorem balanced_iff {s : String} : Balanced s ↔ closes 0 s.toList = true := by
  rw [closes_iff]
  simp only [Nat.zero_add]
  exact ⟨fun h ↦ ⟨h.fronts, h.total⟩, fun h ↦ ⟨h.1, h.2⟩⟩

instance (s : String) : Decidable (Balanced s) :=
  decidable_of_iff _ balanced_iff.symm

namespace Balanced

variable {a b s : String}

theorem of_notMem (hopening : '(' ∉ s.toList) (hclosing : ')' ∉ s.toList) : Balanced s :=
  balanced_iff.mpr (closes_of_notMem hopening hclosing)

theorem append (ha : Balanced a) (hb : Balanced b) : Balanced (a ++ b) := by
  rw [balanced_iff] at ha hb ⊢
  rw [String.toList_append]
  exact (closes_append ha 0).trans hb

theorem parenthesized (h : Balanced s) : Balanced (parenthesized s) := by
  rw [balanced_iff] at h ⊢
  rw [toList_parenthesized]
  exact closes_append h 1

theorem stripParentheses (h : Balanced s) : Balanced (stripParentheses s) := by
  rw [balanced_iff] at h ⊢
  rw [toList_stripParentheses]
  cases hwrapped : wrapped s.toList with
  | false => simpa [unwrap, hwrapped] using h
  | true =>
    obtain ⟨inner, hs, hinner⟩ := wrapped_iff_closes.mp hwrapped
    rw [unwrap, if_pos hwrapped, hs]
    simpa using hinner

theorem intercalate {separator : String} {texts : List String} (hseparator : Balanced separator)
    (htexts : ∀ text ∈ texts, Balanced text) : Balanced (separator.intercalate texts) := by
  induction texts with
  | nil => exact of_notMem (by simp) (by simp)
  | cons text texts ih =>
    have htext : Balanced text := htexts text List.mem_cons_self
    have hrest := ih fun text h ↦ htexts text (List.mem_cons_of_mem _ h)
    cases texts with
    | nil => simpa using htext
    | cons next texts =>
      rw [String.intercalate_cons_cons]
      exact (htext.append hseparator).append hrest

end Balanced
end Text
end ScopedSelect
