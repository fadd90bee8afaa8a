import ScopedSelect.Text.Basic

/-!
# Filling question marks

Other texts are put in the place of the question marks of a text, one after the other.  Texts that
are not empty and have no parentheses change none of the decisions that are made by looking at a
text: whether it is empty, whether it is wrapped, and what is left without its pair of parentheses.
-/

namespace ScopedSelect
namespace Text

/-- The characters with `m k` in the place of the question mark with the number `k`. -/
def fillMarks (m : Nat → String) : Nat → List Char → List Char
  | _, [] => []
  | k, c :: rest =>
    if c = '?' then (m k).toList ++ fillMarks m (k + 1) rest else c :: fillMarks m k rest

section Splicing

variable (m : Nat → String) (k : Nat)

@[simp] theorem fillMarks_nil : fillMarks m k [] = [] := rfl

theorem fillMarks_cons_mark (rest : List Char) :
    fillMarks m k ('?' :: rest) = (m k).toList ++ fillMarks m (k + 1) rest := rfl

theorem fillMarks_cons_of_ne {c : Char} (h : c ≠ '?') (rest : List Char) :
    fillMarks m k (c :: rest) = c :: fillMarks m k rest := by
  simp [fillMarks, h]

theorem fillMarks_append (xs ys : List Char) :
    fillMarks m k (xs ++ ys) = fillMarks m k xs ++ fillMarks m (k + xs.count '?') ys := by
  induction xs generalizing k with
  | nil => simp
  | cons c xs ih =>
    by_cases hc : c = '?'
    · subst hc
      have hcount : k + 1 + xs.count '?' = k + (xs.count '?' + 1) := by omega
      simp [fillMarks_cons_mark, ih, hcount]
    · have hcount : (c :: xs).count '?' = xs.count '?' := List.count_cons_of_ne hc
      simp [fillMarks_cons_of_ne m k hc, ih, hcount]

theorem fillMarks_of_notMem {xs : List Char} (h : '?' ∉ xs) : fillMarks m k xs = xs := by
  induction xs with
  | nil => rfl
  | cons c xs ih =>
    rw [List.mem_cons, not_or] at h
    rw [fillMarks_cons_of_ne m k (Ne.symm h.1), ih h.2]

end Splicing

/-- A single group in parentheses is what stands inside, and the pair around it. -/
theorem exists_of_wrapped {cs : List Char} (h : wrapped cs = true) :
    ∃ inner, cs = '(' :: (inner ++ [')']) ∧ unwrap cs = inner := by
  obtain ⟨⟨hfirst, hlast⟩, -⟩ : (cs.head? = some '(' ∧ cs.getLast? = some ')') ∧
      closesLast 0 cs = true := by
    simpa [wrapped] using h
  obtain ⟨rest, rfl⟩ := List.head?_eq_some_iff.mp hfirst
  obtain ⟨front, hfront⟩ := List.getLast?_eq_some_iff.mp hlast
  cases front with
  | nil => simp at hfront
  | cons c inner =>
    obtain ⟨rfl, rfl⟩ : '(' = c ∧ rest = inner ++ [')'] := by simpa using hfront
    exact ⟨inner, rfl, by simp [unwrap, h]⟩

/-- A text that may take the place of a mark: it is not empty and has no parentheses. -/
structure IsFiller (s : String) : Prop where
  nonempty : s.toList ≠ []
  opening : '(' ∉ s.toList
  closing : ')' ∉ s.toList

theorem closesLast_append {word : List Char} (hopening : '(' ∉ word) (hclosing : ')' ∉ word)
    (depth : Nat) (rest : List Char) :
    closesLast depth (word ++ rest) = closesLast depth rest := by
  induction word with
  | nil => rfl
  | cons c word ih =>
    simp only [List.mem_cons, not_or] at hopening hclosing
    rw [List.cons_append, closesLast, if_neg (Ne.symm hopening.1), if_neg (Ne.symm hclosing.1),
      ih hopening.2 hclosing.2]

section Filling

variable {m : Nat → String} (hm : ∀ k, IsFiller (m k)) (k : Nat) (cs : List Char)

include hm

theorem fillMarks_eq_nil_iff : fillMarks m k cs = [] ↔ cs = [] := by
  cases cs with
  | nil => simp
  | cons c cs =>
    by_cases hc : c = '?'
    · simp [hc, fillMarks_cons_mark, (hm k).nonempty]
    · simp [fillMarks_cons_of_ne m k hc]

theorem head?_fillMarks : (fillMarks m k cs).head? = some '(' ↔ cs.head? = some '(' := by
  cases cs with
  | nil => simp
  | cons c cs =>
    by_cases hc : c = '?'
    · subst hc
      obtain ⟨c', rest, hword⟩ := List.exists_cons_of_ne_nil (hm k).nonempty
      have hne : c' ≠ '(' := by
        rintro rfl
        exact (hm k).opening (by simp [hword])
      simp [fillMarks_cons_mark, hword, hne]
    · simp [fillMarks_cons_of_ne m k hc]

theorem getLast?_fillMarks : (fillMarks m k cs).getLast? = some ')' ↔ cs.getLast? = some ')' := by
  rcases List.eq_nil_or_concat cs with rfl | ⟨front, c, rfl⟩
  · simp
  · rw [List.concat_eq_append, fillMarks_append]
    by_cases hc : c = '?'
    · subst hc
      have hword (n : Nat) : (m n).toList.getLast? ≠ some ')' :=
        fun h ↦ (hm n).closing (List.mem_of_getLast? h)
      simp [fillMarks_cons_mark, List.getLast?_append, hword, (hm _).nonempty]
    · simp [fillMarks_cons_of_ne m _ hc]

theorem closesLast_fillMarks (depth : Nat) :
    closesLast depth (fillMarks m k cs) = closesLast depth cs := by
  induction cs generalizing k depth with
  | nil => rfl
  | cons c cs ih =>
    by_cases hc : c = '?'
    · subst hc
      rw [fillMarks_cons_mark, closesLast_append (hm k).opening (hm k).closing, ih]
      rfl
    · simp only [fillMarks_cons_of_ne m k hc, closesLast, ih, ne_eq, fillMarks_eq_nil_iff hm]

theorem wrapped_fillMarks : wrapped (fillMarks m k cs) = wrapped cs := by
  simp only [wrapped, closesLast_fillMarks hm]
  congr 2
  · rw [Bool.eq_iff_iff, beq_iff_eq, beq_iff_eq]
    exact head?_fillMarks hm k cs
  · rw [Bool.eq_iff_iff, beq_iff_eq, beq_iff_eq]
    exact getLast?_fillMarks hm k cs

theorem unwrap_fillMarks : unwrap (fillMarks m k cs) = fillMarks m k (unwrap cs) := by
  cases h : wrapped cs with
  | false =>
    have hfilled : wrapped (fillMarks m k cs) = false := (wrapped_fillMarks hm k cs).trans h
    simp [unwrap, h, hfilled]
  | true =>
    have hfilled : wrapped (fillMarks m k cs) = true := (wrapped_fillMarks hm k cs).trans h
    obtain ⟨inner, rfl, hinner⟩ := exists_of_wrapped h
    obtain ⟨inner', hcs, hinner'⟩ := exists_of_wrapped hfilled
    have hgroup : fillMarks m k ('(' :: (inner ++ [')'])) =
        '(' :: (fillMarks m k inner ++ [')']) := by
      simp [fillMarks_cons_of_ne, fillMarks_append]
    rw [hinner, hinner']
    simpa [hgroup, eq_comm] using hcs

end Filling

def marks (s : String) : Nat := s.toList.count '?'

/-- The text with `m n` in the place of the question mark with the number `n`, where the first one
has the number `k`. -/
def fill (m : Nat → String) (k : Nat) (s : String) : String :=
  String.ofList (fillMarks m k s.toList)

@[simp] theorem toList_fill (m : Nat → String) (k : Nat) (s : String) :
    (fill m k s).toList = fillMarks m k s.toList := by
  simp [fill]

theorem marks_append (s t : String) : marks (s ++ t) = marks s + marks t := by
  simp [marks]

theorem marks_eq_zero {s : String} (h : '?' ∉ s.toList) : marks s = 0 :=
  List.count_eq_zero.mpr h

theorem fill_append (m : Nat → String) (k : Nat) (s t : String) :
    fill m k (s ++ t) = fill m k s ++ fill m (k + marks s) t := by
  apply String.toList_inj.mp
  simp [marks, fillMarks_append]

theorem fill_of_notMem (m : Nat → String) (k : Nat) {s : String} (h : '?' ∉ s.toList) :
    fill m k s = s := by
  apply String.toList_inj.mp
  rw [toList_fill, fillMarks_of_notMem m k h]

theorem marks_stripParentheses (s : String) : marks (stripParentheses s) = marks s := by
  rw [marks, marks, toList_stripParentheses]
  cases h : wrapped s.toList with
  | false => simp [unwrap, h]
  | true =>
    obtain ⟨inner, hs, hinner⟩ := exists_of_wrapped h
    rw [hinner, hs]
    simp

section Filling

variable {m : Nat → String} (hm : ∀ k, IsFiller (m k)) (k : Nat) (s : String)

include hm

theorem fill_eq_empty_iff : fill m k s = "" ↔ s = "" := by
  rw [← String.toList_inj, ← String.toList_inj, toList_fill]
  exact fillMarks_eq_nil_iff hm k s.toList

theorem isWrapped_fill : isWrapped (fill m k s) = isWrapped s := by
  rw [isWrapped, isWrapped, toList_fill, wrapped_fillMarks hm]

theorem stripParentheses_fill : stripParentheses (fill m k s) = fill m k (stripParentheses s) := by
  apply String.toList_inj.mp
  rw [toList_stripParentheses, toList_fill, toList_fill, toList_stripParentheses,
    unwrap_fillMarks hm]

end Filling

end Text
end ScopedSelect
