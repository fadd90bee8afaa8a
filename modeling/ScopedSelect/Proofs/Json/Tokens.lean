import ScopedSelect.Json.Basic
import ScopedSelect.Json.Reader
import ScopedSelect.Proofs.Text.Digits

/-!
# Reading the numbers and strings that were printed

Each reader takes back what the printer wrote and leaves what follows it.  What follows a document
is nothing or one of the characters that end it inside a container (`Delimited`); a number would go
on otherwise.  No document begins with a blank or with the end of a container (`Begun`).
-/

namespace ScopedSelect
namespace Json

/-- What may follow a document: nothing, a comma or the end of a container. -/
def Delimited (rest : List Char) : Prop :=
  ∀ c ∈ rest.head?, c = ',' ∨ c = ']' ∨ c = '\x7d'

/-- A text that starts neither with a blank nor with the end of a container. -/
inductive Begun : List Char → Prop where
  | intro {c : Char} {cs : List Char} (hspace : isSpace c = false) (hbracket : c ≠ ']')
    (hbrace : c ≠ '\x7d') : Begun (c :: cs)

variable {rest : List Char}

theorem delimited_comma (rest : List Char) : Delimited (',' :: rest) := by
  simp [Delimited]

theorem delimited_close {close : Char} (h : close = ']' ∨ close = '\x7d') (rest : List Char) :
    Delimited (close :: rest) := by
  simp [Delimited, h]

theorem skipSpaces_of_delimited (h : Delimited rest) : skipSpaces rest = rest := by
  cases rest with
  | nil => rfl
  | cons c rest =>
    have hc : isSpace c = false := by
      rcases h c rfl with rfl | rfl | rfl <;> decide
    simp [skipSpaces, hc]

theorem Begun.append {cs : List Char} (h : Begun cs) (rest : List Char) : Begun (cs ++ rest) := by
  cases h with
  | intro hspace hbracket hbrace => exact .intro hspace hbracket hbrace

theorem Begun.skipSpaces_eq {cs : List Char} (h : Begun cs) : skipSpaces cs = cs := by
  cases h with
  | intro hspace _ _ => simp [skipSpaces, hspace]

/-! ## Numbers -/

theorem readFraction_of_delimited (h : Delimited rest) : readFraction rest = some ([], rest) := by
  cases rest with
  | nil => rfl
  | cons c rest => rcases h c rfl with rfl | rfl | rfl <;> rfl

theorem readExponent_of_delimited (h : Delimited rest) : readExponent rest = some (none, rest) := by
  cases rest with
  | nil => rfl
  | cons c rest => rcases h c rfl with rfl | rfl | rfl <;> rfl

theorem isDigit_of_delimited (h : Delimited rest) : ∀ c ∈ rest.head?, c.isDigit = false := by
  intro c hc
  rcases h c hc with rfl | rfl | rfl <;> rfl

theorem begun_of_sign_or_digit {c : Char} (hc : c = '-' ∨ c.isDigit = true) (cs : List Char) :
    Begun (c :: cs) := by
  refine .intro ?_ ?_ ?_
  · by_contra hspace
    simp only [isSpace, Bool.not_eq_false, Bool.or_eq_true, beq_iff_eq] at hspace
    rcases hspace with ((rfl | rfl) | rfl) | rfl <;> simp at hc
  · rintro rfl
    simp at hc
  · rintro rfl
    simp at hc

theorem numberOf?_natural {m : Nat} (h : m ≤ 0xFFFFFFFFFFFFFFFF) :
    numberOf? false (Nat.toDigits 10 m) [] none = some (.whole m) := by
  simp [numberOf?, Text.ofDigits_toDigits, h]

theorem numberOf?_negative {m : Nat} (hpos : 0 < m) (h : m ≤ 0x8000000000000000) :
    numberOf? true (Nat.toDigits 10 m) [] none = some (.whole (-m)) := by
  simp [numberOf?, Text.ofDigits_toDigits, hpos, h]

/-- The sign and the digits of a number are all that is read of it. -/
theorem readNumber_digits {negative : Bool} {m : Nat} {number : JsonNumber}
    (hnumber : numberOf? negative (Nat.toDigits 10 m) [] none = some number) (h : Delimited rest) :
    readNumber ((if negative then ['-'] else []) ++ (Nat.toDigits 10 m ++ rest)) =
      some (number, rest) := by
  have hspan := Text.spanDigits_toDigits m (isDigit_of_delimited h)
  obtain ⟨c, digits, hdigits, hc⟩ := Text.exists_toDigits_eq_cons m
  have hminus : c ≠ '-' := by
    rintro rfl
    simp at hc
  have hzero : ∀ d ds, c :: digits ≠ '0' :: d :: ds := fun d ds ↦
    hdigits ▸ Text.toDigits_ne_zero_cons_cons m d ds
  rw [hdigits, List.cons_append] at hspan ⊢
  rw [hdigits] at hnumber
  have hfraction := readFraction_of_delimited h
  have hexponent := readExponent_of_delimited h
  cases negative with
  | false => simp [readNumber, hminus, hspan, hfraction, hexponent, hnumber]
  | true => simp [readNumber, hspan, hfraction, hexponent, hnumber]

theorem readNumber_whole {n : Int} (hn : -0x8000000000000000 ≤ n ∧ n ≤ 0xFFFFFFFFFFFFFFFF)
    (h : Delimited rest) :
    readNumber ((toString n).toList ++ rest) = some (.whole n, rest) := by
  rw [Text.toList_toString_int, List.append_assoc]
  by_cases hneg : n < 0
  · have hnumber := numberOf?_negative (m := n.natAbs) (by omega) (by omega)
    have hvalue : -(n.natAbs : Int) = n := by omega
    rw [hvalue] at hnumber
    rw [if_pos hneg]
    exact readNumber_digits hnumber h
  · have hnumber := numberOf?_natural (m := n.natAbs) (by omega)
    have hvalue : (n.natAbs : Int) = n := by omega
    rw [hvalue] at hnumber
    rw [if_neg hneg]
    exact readNumber_digits hnumber h

/-! ## Strings -/

theorem readUnit_hexDigits {n : Nat} (hn : n < 65536) (rest : List Char) :
    readUnit (Text.hexDigits 4 n ++ rest) = some (n, rest) := by
  have hdigit (k : Nat) : Text.hexValue? (Text.hexDigit (k % 16)) = some (k % 16) :=
    Text.hexValue?_hexDigit _ (Nat.mod_lt _ (by decide))
  have hsum : 4096 * (n / 4096 % 16) + 256 * (n / 256 % 16) + 16 * (n / 16 % 16) + n % 16 = n := by
    omega
  simp [Text.hexDigits_four, readUnit, hdigit, hsum]

/-- What stands for one character is read as that character. -/
theorem readCharacters_escape {steps : Nat} {cs rest rest' : List Char}
    (h : readCharacters steps rest = some (cs, rest')) (c : Char) :
    readCharacters (steps + 1) (escape c ++ rest) = some (c :: cs, rest') := by
  unfold escape
  split
  case h_8 hquote hbackslash _ _ _ _ _ =>
    split
    · rename_i hcontrol
      have hunit := readUnit_hexDigits (n := c.toNat) (by omega) rest
      have hlow : c.toNat < 0xD800 := by omega
      have hescape : readNumericEscape (Text.hexDigits 4 c.toNat ++ rest) = some (c, rest) := by
        simp [readNumericEscape, hunit, hlow]
      simp [readCharacters, hescape, h]
    · rename_i hplain
      rw [List.singleton_append, readCharacters]
      · have hne : c ≠ '\\' := hbackslash
        simp [hne, hplain, h]
      · exact hquote
      · exact fun _ hc _ ↦ hbackslash hc
      · exact fun _ _ hc _ ↦ hbackslash hc
  all_goals simp [readCharacters, simpleEscape?, h]

theorem readCharacters_flatMap_escape {steps : Nat} {cs : List Char} (hsteps : cs.length < steps)
    (rest : List Char) :
    readCharacters steps (cs.flatMap escape ++ '"' :: rest) = some (cs, rest) := by
  induction cs generalizing steps with
  | nil =>
    obtain ⟨steps, rfl⟩ := Nat.exists_eq_add_one.mpr (Nat.zero_lt_of_lt hsteps)
    rfl
  | cons c cs ih =>
    obtain ⟨steps, rfl⟩ := Nat.exists_eq_add_one.mpr (Nat.zero_lt_of_lt hsteps)
    rw [List.flatMap_cons, List.append_assoc]
    exact readCharacters_escape (ih (Nat.lt_of_succ_lt_succ hsteps)) c

theorem length_le_length_flatMap_escape (cs : List Char) :
    cs.length ≤ (cs.flatMap escape).length := by
  have hne (c : Char) : 1 ≤ (escape c).length := by
    unfold escape
    split
    case h_8 => split <;> simp
    all_goals simp
  induction cs with
  | nil => simp
  | cons c cs ih =>
    have hc := hne c
    simp only [List.flatMap_cons, List.length_cons, List.length_append]
    omega

theorem toList_printString (s : String) :
    (printString s).toList = '"' :: (s.toList.flatMap escape ++ ['"']) := by
  simp [printString]

theorem readString_printString (s : String) (rest : List Char) :
    readString ((printString s).toList ++ rest) = some (s, rest) := by
  have hlength := length_le_length_flatMap_escape s.toList
  have hsteps : s.toList.length < (s.toList.flatMap escape ++ '"' :: rest).length + 1 := by
    simp only [List.length_append, List.length_cons]
    omega
  have hread := readCharacters_flatMap_escape hsteps rest
  have htext : (printString s).toList ++ rest =
      '"' :: (s.toList.flatMap escape ++ '"' :: rest) := by
    simp [toList_printString]
  rw [htext, readString, hread]
  simp

theorem begun_printString (s : String) : Begun (printString s).toList := by
  rw [toList_printString]
  exact .intro (by decide) (by decide) (by decide)

end Json
end ScopedSelect
