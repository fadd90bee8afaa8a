import ScopedSelect.Proofs.Text.Balance

/-!
# Recognising a text in parentheses

A text is one group in parentheses exactly if what stands inside is balanced, and what stands inside
is what is left without the pair (`wrapping_exact`).  The same is found in the encoded text, whose
characters take one byte or several: its last character is known by its offset, no group is closed
that was never opened, and the pair is cut away between two characters.
-/

namespace ScopedSelect
namespace Text

section Parenthesized

variable {inner : String}

theorem isWrapped_parenthesized_iff : isWrapped (parenthesized inner) = true ↔ Balanced inner := by
  rw [isWrapped, wrapped_iff_closes, toList_parenthesized, balanced_iff]
  constructor
  · rintro ⟨cs, hcs, hcloses⟩
    obtain rfl : inner.toList = cs := by simpa using hcs
    exact hcloses
  · exact fun h ↦ ⟨inner.toList, rfl, h⟩

theorem stripParentheses_parenthesized :
    stripParentheses (parenthesized inner) =
      if Balanced inner then inner else parenthesized inner := by
  apply String.toList_inj.mp
  by_cases h : Balanced inner
  · have hwrapped : wrapped (parenthesized inner).toList = true := isWrapped_parenthesized_iff.mpr h
    rw [toList_stripParentheses, unwrap, if_pos hwrapped, if_pos h]
    simp
  · have hwrapped : ¬wrapped (parenthesized inner).toList = true :=
      fun hwrapped ↦ h (isWrapped_parenthesized_iff.mp hwrapped)
    rw [toList_stripParentheses, unwrap, if_neg hwrapped, if_neg h]

theorem isWrapped_iff {s : String} :
    isWrapped s = true ↔ ∃ inner, s = parenthesized inner ∧ Balanced inner := by
  constructor
  · intro h
    obtain ⟨cs, hs, -⟩ := exists_of_wrapped h
    obtain rfl : s = parenthesized (String.ofList cs) := by
      apply String.toList_inj.mp
      simp [hs]
    exact ⟨_, rfl, isWrapped_parenthesized_iff.mp h⟩
  · rintro ⟨inner, rfl, h⟩
    exact isWrapped_parenthesized_iff.mpr h

theorem stripParentheses_of_not_wrapped {s : String} (h : isWrapped s = false) :
    stripParentheses s = s := by
  apply String.toList_inj.mp
  have hwrapped : ¬wrapped s.toList = true := by simpa [isWrapped] using h
  rw [toList_stripParentheses, unwrap, if_neg hwrapped]

end Parenthesized

/-! ## The encoded text -/

/-- Read on from a byte offset with `depth` groups open, in a text of `size` bytes.  There is no
answer if a group closes that was never opened. -/
def scanBytes? (size : Nat) : (offset depth : Nat) → List Char → Option Bool
  | _, depth, [] => some (depth == 0)
  | offset, depth, c :: rest =>
    if c = '(' then scanBytes? size (offset + c.utf8Size) (depth + 1) rest
    else if c = ')' then
      if depth = 0 then none
      else if depth - 1 = 0 ∧ offset ≠ size - 1 then some false
      else scanBytes? size (offset + c.utf8Size) (depth - 1) rest
    else scanBytes? size (offset + c.utf8Size) depth rest

/-- Whether the encoded text is one group in parentheses. -/
def wrappedBytes? (s : String) : Option Bool :=
  if s.toList.head? = some '(' ∧ s.toList.getLast? = some ')' then
    scanBytes? s.utf8ByteSize 0 0 s.toList
  else some false

theorem utf8ByteSize_ofList_cons (c : Char) (cs : List Char) :
    (String.ofList (c :: cs)).utf8ByteSize = c.utf8Size + (String.ofList cs).utf8ByteSize := by
  rw [String.ofList_cons, String.utf8ByteSize_append, String.utf8ByteSize_singleton]

/-- A parenthesis takes one byte, so the last one stands one byte before the end. -/
theorem offset_ne_last_iff {size offset : Nat} {rest : List Char}
    (hsize : size = offset + (String.ofList (')' :: rest)).utf8ByteSize) :
    offset ≠ size - 1 ↔ rest ≠ [] := by
  have hclosing : Char.utf8Size ')' = 1 := rfl
  rw [utf8ByteSize_ofList_cons, hclosing] at hsize
  cases rest with
  | nil => simp [hsize]
  | cons c rest =>
    have hpos := c.utf8Size_pos
    rw [utf8ByteSize_ofList_cons] at hsize
    simp only [ne_eq, reduceCtorEq, not_false_eq_true, iff_true]
    omega

/-- By induction on the characters that are left.  A group is open before each of them, because the
scan goes on after the outermost one is closed only if that was the last character. -/
theorem scanBytes?_eq {size offset depth : Nat} {cs : List Char}
    (hsize : size = offset + (String.ofList cs).utf8ByteSize) (hopen : cs = [] ∨ 0 < depth) :
    scanBytes? size offset depth cs = some (closesLast depth cs) := by
  induction cs generalizing offset depth with
  | nil => rfl
  | cons c cs ih =>
    have hpos : 0 < depth := by simpa using hopen
    have hrest : size = offset + c.utf8Size + (String.ofList cs).utf8ByteSize := by
      rw [hsize, utf8ByteSize_ofList_cons, Nat.add_assoc]
    rw [scanBytes?, closesLast]
    by_cases hopening : c = '('
    · rw [if_pos hopening, if_pos hopening]
      exact ih hrest (.inr depth.succ_pos)
    rw [if_neg hopening, if_neg hopening]
    by_cases hclosing : c = ')'
    · subst hclosing
      have hlast : (depth - 1 = 0 ∧ offset ≠ size - 1) ↔ (depth - 1 = 0 ∧ cs ≠ []) :=
        and_congr_right fun _ ↦ offset_ne_last_iff hsize
      rw [if_pos rfl, if_pos rfl, if_neg (Nat.ne_of_gt hpos)]
      by_cases houtermost : depth - 1 = 0 ∧ cs ≠ []
      · rw [if_pos houtermost, if_pos (hlast.mpr houtermost)]
      · rw [if_neg houtermost, if_neg (mt hlast.mp houtermost)]
        refine ih hrest ?_
        by_cases hcs : cs = []
        · exact .inl hcs
        · exact .inr (Nat.pos_of_ne_zero fun hdepth ↦ houtermost ⟨hdepth, hcs⟩)
    · rw [if_neg hclosing, if_neg hclosing]
      exact ih hrest (.inr hpos)

/-- The scan of the encoded text always has an answer, and it is that of the scan by characters. -/
theorem wrappedBytes?_eq (s : String) : wrappedBytes? s = some (isWrapped s) := by
  unfold wrappedBytes?
  split
  next h =>
    obtain ⟨hfirst, hlast⟩ := h
    obtain ⟨rest, hrest⟩ := List.head?_eq_some_iff.mp hfirst
    have hsize : s.utf8ByteSize = 1 + (String.ofList rest).utf8ByteSize := by
      rw [← String.ofList_toList (s := s), hrest, utf8ByteSize_ofList_cons]
      rfl
    have hscan : scanBytes? s.utf8ByteSize 1 1 rest = some (closesLast 1 rest) :=
      scanBytes?_eq hsize (.inr Nat.one_pos)
    have hwrapped : isWrapped s = closesLast 0 s.toList := by
      simp [isWrapped, wrapped, hfirst, hlast]
    rw [hwrapped, hrest]
    exact hscan
  next h =>
    have hwrapped : isWrapped s = false := by
      rw [Decidable.not_and_iff_not_or_not] at h
      rcases h with h | h <;> simp [isWrapped, wrapped, h]
    rw [hwrapped]

/-- The text from one byte offset to another, both of which stand between two characters. -/
def CutsTo (s : String) (start stop : Nat) (inner : String) : Prop :=
  ∃ first last : s.Pos, first.offset.byteIdx = start ∧ last.offset.byteIdx = stop ∧
    first ≤ last ∧ s.extract first last = inner

/-- The pair of parentheses takes the first byte and the last one. -/
theorem parenthesized_cutsTo (inner : String) :
    CutsTo (parenthesized inner) 1 ((parenthesized inner).utf8ByteSize - 1) inner := by
  have hopening : "(".utf8ByteSize = 1 := rfl
  have hclosing : ")".utf8ByteSize = 1 := rfl
  have hsize : (parenthesized inner).utf8ByteSize - 1 = 1 + inner.utf8ByteSize := by
    rw [parenthesized, String.utf8ByteSize_append, String.utf8ByteSize_append, hopening, hclosing]
    omega
  have hfirst : String.Pos.Raw.IsValid (parenthesized inner) ⟨1⟩ := by
    refine String.Pos.Raw.isValid_iff_exists_append.mpr ⟨"(", inner ++ ")", ?_, rfl⟩
    rw [parenthesized, String.append_assoc]
  have hlast : String.Pos.Raw.IsValid (parenthesized inner) ⟨1 + inner.utf8ByteSize⟩ := by
    refine String.Pos.Raw.isValid_iff_exists_append.mpr ⟨"(" ++ inner, ")", rfl, ?_⟩
    rw [String.Pos.Raw.ext_iff, String.byteIdx_rawEndPos, String.utf8ByteSize_append, hopening]
  refine ⟨⟨⟨1⟩, hfirst⟩, ⟨⟨1 + inner.utf8ByteSize⟩, hlast⟩, rfl, hsize.symm, ?_, ?_⟩
  · rw [String.Pos.le_iff, String.Pos.Raw.le_iff]
    exact Nat.le_add_right 1 _
  · apply String.toByteArray_inj.mp
    have hbytes : (parenthesized inner).toByteArray =
        "(".toByteArray ++ (inner.toByteArray ++ ")".toByteArray) := by
      rw [parenthesized, String.append_assoc, String.toByteArray_append,
        String.toByteArray_append]
    calc ((parenthesized inner).extract ⟨⟨1⟩, hfirst⟩ ⟨⟨1 + inner.utf8ByteSize⟩, hlast⟩).toByteArray
        = ("(".toByteArray ++ (inner.toByteArray ++ ")".toByteArray)).extract (1 + 0)
            (1 + inner.utf8ByteSize) := by rw [String.toByteArray_extract, hbytes]
      _ = (inner.toByteArray ++ ")".toByteArray).extract 0 inner.utf8ByteSize :=
          ByteArray.extract_append_size_add' rfl
      _ = inner.toByteArray := ByteArray.extract_append_eq_left rfl

/-- The texts that count as wrapped are those that enclose a balanced text, and that one is left of
them; any other text is left as it is.  The encoded text is scanned with the same answer, without
closing a group that is not open, and the pair is cut away between two characters. -/
theorem wrapping_exact (s : String) :
    (isWrapped s = true ↔ ∃ inner, s = parenthesized inner ∧ Balanced inner) ∧
    (∀ inner, s = parenthesized inner → Balanced inner → stripParentheses s = inner) ∧
    ((¬∃ inner, s = parenthesized inner ∧ Balanced inner) → stripParentheses s = s) ∧
    wrappedBytes? s = some (isWrapped s) ∧
    (isWrapped s = true → CutsTo s 1 (s.utf8ByteSize - 1) (stripParentheses s)) := by
  have hstrip (inner : String) (hs : s = parenthesized inner) (hinner : Balanced inner) :
      stripParentheses s = inner := by
    rw [hs, stripParentheses_parenthesized, if_pos hinner]
  refine ⟨isWrapped_iff, hstrip, fun h ↦ ?_, wrappedBytes?_eq s, fun h ↦ ?_⟩
  · exact stripParentheses_of_not_wrapped (Bool.eq_false_iff.mpr (mt isWrapped_iff.mp h))
  · obtain ⟨inner, hs, hinner⟩ := isWrapped_iff.mp h
    rw [hstrip inner hs hinner, hs]
    exact parenthesized_cutsTo inner

/-- A text of nineteen bytes, in which two characters take three of them each. -/
theorem euros_wrapping :
    Balanced "preis ≤ (3 €)" ∧ stripParentheses "(preis ≤ (3 €))" = "preis ≤ (3 €)" ∧
      wrappedBytes? "(preis ≤ (3 €))" = some true ∧
      CutsTo "(preis ≤ (3 €))" 1 18 "preis ≤ (3 €)" := by
  have hbalanced : Balanced "preis ≤ (3 €)" := by decide
  have hparenthesized : "(preis ≤ (3 €))" = parenthesized "preis ≤ (3 €)" := by decide
  obtain ⟨hiff, hstrip, -, hscan, hcuts⟩ := wrapping_exact "(preis ≤ (3 €))"
  have hwrapped := hiff.mpr ⟨_, hparenthesized, hbalanced⟩
  have hleft := hstrip _ hparenthesized hbalanced
  rw [hwrapped] at hscan
  have hcut := hcuts hwrapped
  rw [hleft] at hcut
  exact ⟨hbalanced, hleft, hscan, hcut⟩

end Text
end ScopedSelect
