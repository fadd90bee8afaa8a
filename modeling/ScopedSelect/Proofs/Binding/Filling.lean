import ScopedSelect.Proofs.Binding.Congruence
import ScopedSelect.Proofs.Text.Marks

/-!
# Texts beside the texts with their marks filled

A text is aligned with its bind sites if it has one question mark for each of them, and its values
are those of the sites.  Beside it stands the text in which the marks are filled, which binds
nothing.  Putting texts together keeps them aligned as long as nothing else brings a question mark
into the text, and no text with a mark is dropped.
-/

namespace ScopedSelect

/-- The first text has a mark for each site and its values are those of the sites.  The second is
the first one with its marks filled, and it has no values. -/
structure Aligned (m : Nat → String) (k : Nat) (sites : List BindSite) (a b : String)
    (vs vs' : List Value) : Prop where
  filled : b = Text.fill m k a
  marks : Text.marks a = sites.length
  values : vs.map some = sites
  silent : vs' = []

namespace Aligned

variable {m : Nat → String} {k : Nat} {L L' : List BindSite} {a b a' b' t : String}
  {vs vs' ws ws' : List Value}

theorem text (h : '?' ∉ t.toList) : Aligned m k [] t t [] [] where
  filled := (Text.fill_of_notMem m k h).symm
  marks := Text.marks_eq_zero h
  values := rfl
  silent := rfl

theorem append (h : Aligned m k L a b vs vs') (h' : Aligned m (k + L.length) L' a' b' ws ws') :
    Aligned m k (L ++ L') (a ++ a') (b ++ b') (vs ++ ws) (vs' ++ ws') where
  filled := by rw [Text.fill_append, h.marks, ← h.filled, ← h'.filled]
  marks := by rw [Text.marks_append, h.marks, h'.marks, List.length_append]
  values := by rw [List.map_append, h.values, h'.values]
  silent := by rw [h.silent, h'.silent, List.append_nil]

theorem before (ht : '?' ∉ t.toList) (h : Aligned m k L a b vs vs') :
    Aligned m k L (t ++ a) (t ++ b) vs vs' :=
  (text ht).append h

theorem behind (h : Aligned m k L a b vs vs') (ht : '?' ∉ t.toList) :
    Aligned m k L (a ++ t) (b ++ t) vs vs' := by
  simpa using h.append (text ht)

theorem parenthesized (h : Aligned m k L a b vs vs') :
    Aligned m k L (Text.parenthesized a) (Text.parenthesized b) vs vs' :=
  (h.before (t := "(") (by simp)).behind (by simp)

theorem of_empty (h : Aligned m k L "" b vs vs') : L = [] ∧ b = "" ∧ vs = [] ∧ vs' = [] := by
  have hL : L = [] := by simpa [Text.marks] using h.marks.symm
  have hvalues : vs.map some = [] := h.values.trans hL
  exact ⟨hL, by simp [h.filled, Text.fill], List.map_eq_nil_iff.mp hvalues, h.silent⟩

variable (hm : ∀ k, Text.IsFiller (m k))

include hm

theorem empty_or_nonempty (h : Aligned m k L a b vs vs') :
    (a = "" ∧ b = "") ∨ (a ≠ "" ∧ b ≠ "") := by
  have hb : b = "" ↔ a = "" := by rw [h.filled, Text.fill_eq_empty_iff hm]
  by_cases ha : a = ""
  · exact .inl ⟨ha, hb.mpr ha⟩
  · exact .inr ⟨ha, fun h ↦ ha (hb.mp h)⟩

theorem stripParentheses (h : Aligned m k L a b vs vs') :
    Aligned m k L (Text.stripParentheses a) (Text.stripParentheses b) vs vs' where
  filled := by rw [h.filled, Text.stripParentheses_fill hm]
  marks := (Text.marks_stripParentheses a).trans h.marks
  values := h.values
  silent := h.silent

theorem enclose (h : Aligned m k L a b vs vs') :
    Aligned m k L (Folding.enclose (some a)) (Folding.enclose (some b)) vs vs' := by
  rcases h.empty_or_nonempty hm with ⟨rfl, rfl⟩ | ⟨ha, hb⟩
  · exact h
  · simpa only [Folding.enclose, ha, hb, ↓reduceIte] using h.parenthesized

theorem after (ht : '?' ∉ t.toList) (h : Aligned m k L a b vs vs') :
    Aligned m k L (after t a) (after t b) vs vs' := by
  rcases h.empty_or_nonempty hm with ⟨rfl, rfl⟩ | ⟨ha, hb⟩
  · exact h
  · simpa only [ScopedSelect.after, ha, hb, ↓reduceIte] using h.before ht

theorem joinText (ht : '?' ∉ t.toList) (h : Aligned m k L a b vs vs') :
    Aligned m k L (joinText t a) (joinText t b) vs vs' := by
  have hwrapped : Text.isWrapped b = Text.isWrapped a := by rw [h.filled, Text.isWrapped_fill hm]
  have hon : '?' ∉ (t ++ " ON ").toList := by simpa using ht
  rcases h.empty_or_nonempty hm with ⟨rfl, rfl⟩ | ⟨ha, hb⟩
  · obtain ⟨rfl, -, rfl, rfl⟩ := h.of_empty
    exact text ht
  · simp only [ScopedSelect.joinText, ha, hb, hwrapped, ↓reduceIte]
    split
    · exact h.before hon
    · exact h.parenthesized.before hon

end Aligned

section Sequences

variable {m : Nat → String} {k : Nat} {L : List (List BindSite)} {as bs : List String}
  {vs vs' : List Value}

theorem Aligned.intercalate {separator : String} (hseparator : '?' ∉ separator.toList)
    (h : Linked (Aligned m) k L as bs vs vs') :
    Aligned m k L.flatten (separator.intercalate as) (separator.intercalate bs) vs vs' := by
  induction h with
  | nil k => simpa using Aligned.text (t := "") (by simp)
  | cons head tail ih =>
    cases tail with
    | nil => simpa using head
    | cons head' tail' =>
      simp only [String.intercalate_cons_cons, List.flatten_cons] at ih ⊢
      exact (head.behind hseparator).append ih

/-- Texts that are left out are empty, so that no site is left out with them. -/
theorem Linked.filter_nonempty (hm : ∀ k, Text.IsFiller (m k))
    (h : Linked (Aligned m) k L as bs vs vs') :
    ∃ L', L'.flatten = L.flatten ∧
      Linked (Aligned m) k L' (as.filter (· ≠ "")) (bs.filter (· ≠ "")) vs vs' := by
  induction h with
  | nil k => exact ⟨[], rfl, .nil k⟩
  | @cons _ sites _ _ _ _ _ _ _ _ _ head _ ih =>
    obtain ⟨L', hflatten, hlinked⟩ := ih
    rcases head.empty_or_nonempty hm with ⟨rfl, rfl⟩ | ⟨ha, hb⟩
    · obtain ⟨rfl, -, rfl, rfl⟩ := head.of_empty
      exact ⟨L', by simpa using hflatten, by simpa using hlinked⟩
    · refine ⟨sites :: L', by simp [hflatten], ?_⟩
      simpa [ha, hb] using Linked.cons head hlinked

theorem Aligned.spaced (hm : ∀ k, Text.IsFiller (m k))
    (h : Linked (Aligned m) k L as bs vs vs') :
    Aligned m k L.flatten (spaced as) (spaced bs) vs vs' := by
  obtain ⟨L', hflatten, hlinked⟩ := h.filter_nonempty hm
  rw [← hflatten]
  exact Aligned.intercalate (by simp) hlinked

theorem Aligned.assemble (hm : ∀ k, Text.IsFiller (m k)) (c : Clause)
    (h : Linked (Aligned m) k L as bs vs vs') :
    Aligned m k L.flatten (c.assemble as) (c.assemble bs) vs vs' := by
  have hkeyword : '?' ∉ c.keyword.toList := by cases c <;> simp [Clause.keyword]
  have hseparator : '?' ∉ c.separator.toList := by cases c <;> simp [Clause.separator]
  obtain ⟨L', hflatten, hlinked⟩ := h.filter_nonempty hm
  rw [← hflatten, Clause.assemble, Clause.assemble]
  generalize as.filter (· ≠ "") = as', bs.filter (· ≠ "") = bs' at hlinked
  cases hlinked with
  | nil => exact Aligned.text (by simp)
  | cons head tail => exact (Aligned.intercalate hseparator (.cons head tail)).before hkeyword

theorem Aligned.clause (hm : ∀ k, Text.IsFiller (m k)) (c : Clause)
    (h : Linked (Aligned m) k L as bs vs vs') :
    Aligned m k L.flatten (c.headed (c.assemble as)) (c.headed (c.assemble bs)) vs vs' := by
  have hassemble := Aligned.assemble hm c h
  cases c with
  | source => exact hassemble.after hm (by simp)
  | _ => exact hassemble

end Sequences
end ScopedSelect
