import ScopedSelect.Proofs.Text.Digits
import ScopedSelect.Render.Tree

/-!
# Reading the literals of a text

A literal is a keyword, a number, a byte string or a quoted text, and several of them stand side by
side with commas between them.  `Literal.readAll?` reads them from the left as far as they go.  What
a value is written as is read as its leaves, in their order: arrays leave no trace, and nothing that
a text, a document or a byte string holds can end its literal early (`literal_readsAsLeaves`).
-/

namespace ScopedSelect

/-- What one literal stands for. -/
inductive Literal where
  | null
  | bool (b : Bool)
  | integer (n : Int)
  | bytes (bs : List UInt8)
  | text (s : String)
  deriving DecidableEq

namespace Literal

/-! ## The lexer -/

def keyword? : List Char → Option Literal
  | ['N', 'U', 'L', 'L'] => some .null
  | ['T', 'R', 'U', 'E'] => some (.bool true)
  | ['F', 'A', 'L', 'S', 'E'] => some (.bool false)
  | _ => none

/-- The digits of a number, of which there must be one. -/
def readNatural (cs : List Char) : Option (Nat × List Char) :=
  match Text.spanDigits cs with
  | ([], _) => none
  | (digits, rest) => some (Text.ofDigits digits, rest)

def readInteger : List Char → Option (Int × List Char)
  | '-' :: cs => (readNatural cs).map (.map (fun n : Nat ↦ -(n : Int)) id)
  | '+' :: cs => (readNatural cs).map (.map Int.ofNat id)
  | cs => (readNatural cs).map (.map Int.ofNat id)

/-- The bytes up to the closing quote, with two digits each. -/
def readBytes : List Char → Option (List UInt8 × List Char)
  | '\'' :: rest => some ([], rest)
  | high :: low :: rest =>
    match Text.hexValue? high, Text.hexValue? low with
    | some high, some low => (readBytes rest).map (.map (.ofNat (16 * high + low) :: ·) id)
    | _, _ => none
  | _ => none

/-- The characters up to the closing quote; two quotes stand for one. -/
def readQuoted : List Char → Option (List Char × List Char)
  | [] => none
  | '\'' :: '\'' :: rest => (readQuoted rest).map (.map ('\'' :: ·) id)
  | '\'' :: rest => some ([], rest)
  | c :: rest => (readQuoted rest).map (.map (c :: ·) id)

/-- A literal and what follows it. -/
def read? : List Char → Option (Literal × List Char)
  | '\'' :: rest => (readQuoted rest).map (.map (.text ∘ String.ofList) id)
  | 'X' :: '\'' :: rest => (readBytes rest).map (.map .bytes id)
  | cs =>
    match readInteger cs with
    | some (n, rest) => some (.integer n, rest)
    | none => (keyword? (cs.takeWhile Char.isAlpha)).map (·, cs.dropWhile Char.isAlpha)

section Suffixes

/-! What follows something that was read is the end of what it was read from. -/

variable {cs rest : List Char}

theorem isSuffix_of_map {α β : Type} {result : Option (α × List Char)} {f : α → β} {b : β}
    (h : result.map (.map f id) = some (b, rest))
    (hresult : ∀ a, result = some (a, rest) → rest <:+ cs) : rest <:+ cs := by
  obtain ⟨⟨a, rest'⟩, ha, heq⟩ := Option.map_eq_some_iff.mp h
  obtain rfl : rest' = rest := congrArg Prod.snd heq
  exact hresult a ha

theorem isSuffix_of_readNatural {n : Nat} (h : readNatural cs = some (n, rest)) : rest <:+ cs := by
  unfold readNatural at h
  split at h
  · simp at h
  · rename_i digits rest' hne hspan
    obtain ⟨rfl, rfl⟩ : Text.ofDigits digits = n ∧ rest' = rest := by simpa using h
    have happend := Text.spanDigits_append cs
    rw [hspan] at happend
    exact ⟨digits, happend⟩

theorem isSuffix_of_readInteger {n : Int} (h : readInteger cs = some (n, rest)) : rest <:+ cs := by
  unfold readInteger at h
  split at h
  · exact isSuffix_of_map h fun _ hread ↦
      (isSuffix_of_readNatural hread).trans (List.suffix_cons _ _)
  · exact isSuffix_of_map h fun _ hread ↦
      (isSuffix_of_readNatural hread).trans (List.suffix_cons _ _)
  · exact isSuffix_of_map h fun _ hread ↦ isSuffix_of_readNatural hread

theorem isSuffix_of_readBytes {bs : List UInt8} (h : readBytes cs = some (bs, rest)) :
    rest <:+ cs := by
  fun_induction readBytes cs generalizing bs rest with
  | case1 tail =>
    obtain ⟨rfl, rfl⟩ : [] = bs ∧ tail = rest := by simpa using h
    exact List.suffix_cons _ _
  | case2 _ _ tail _ _ _ _ _ ih =>
    exact isSuffix_of_map h fun _ hread ↦
      (ih hread).trans ((List.suffix_cons _ _).trans (List.suffix_cons _ _))
  | case3 | case4 => simp at h

theorem isSuffix_of_readQuoted {text : List Char} (h : readQuoted cs = some (text, rest)) :
    rest <:+ cs := by
  fun_induction readQuoted cs generalizing text rest with
  | case1 => simp at h
  | case2 tail ih =>
    exact isSuffix_of_map h fun _ hread ↦
      (ih hread).trans ((List.suffix_cons _ _).trans (List.suffix_cons _ _))
  | case3 tail =>
    obtain ⟨rfl, rfl⟩ : [] = text ∧ tail = rest := by simpa using h
    exact List.suffix_cons _ _
  | case4 _ tail _ _ ih =>
    exact isSuffix_of_map h fun _ hread ↦ (ih hread).trans (List.suffix_cons _ _)

theorem isSuffix_of_read? {literal : Literal} (h : read? cs = some (literal, rest)) :
    rest <:+ cs := by
  unfold read? at h
  split at h
  · exact isSuffix_of_map h fun _ hread ↦
      (isSuffix_of_readQuoted hread).trans (List.suffix_cons _ _)
  · exact isSuffix_of_map h fun _ hread ↦
      (isSuffix_of_readBytes hread).trans ((List.suffix_cons _ _).trans (List.suffix_cons _ _))
  · split at h
    · rename_i n rest' hread
      obtain rfl : rest' = rest := congrArg Prod.snd (Option.some.inj h)
      exact isSuffix_of_readInteger hread
    · obtain ⟨_, -, heq⟩ := Option.map_eq_some_iff.mp h
      obtain rfl := congrArg Prod.snd heq
      exact List.dropWhile_suffix _

end Suffixes

/-- The literals with commas between them, and what follows the last one. -/
def readAll? (cs : List Char) : Option (List Literal × List Char) :=
  match _h : read? cs with
  | none => none
  | some (literal, ',' :: rest) => (readAll? rest).map (.map (literal :: ·) id)
  | some (literal, rest) => some ([literal], rest)
termination_by cs.length
decreasing_by exact (isSuffix_of_read? _h).length_le

/-- The literals that follow a comma, if there is one. -/
def readMore? : List Char → Option (List Literal × List Char)
  | ',' :: rest => readAll? rest
  | rest => some ([], rest)

theorem readAll?_of_read? {cs rest : List Char} {literal : Literal}
    (h : read? cs = some (literal, rest)) :
    readAll? cs = (readMore? rest).map (.map (literal :: ·) id) := by
  rw [readAll?]
  split
  · simp_all
  · rename_i literal' rest' heq
    obtain ⟨rfl, rfl⟩ : literal = literal' ∧ rest = ',' :: rest' := by simpa [h] using heq
    rfl
  · rename_i literal' rest' hne heq
    obtain ⟨rfl, rfl⟩ : literal = literal' ∧ rest = rest' := by simpa [h] using heq
    rw [readMore?]
    · rfl
    · exact hne

/-! ## What one literal is read as -/

/-- What may follow a literal: neither a quote nor a letter or digit, which would be read as more of
it. -/
def Bounded (rest : List Char) : Prop :=
  ∀ c ∈ rest.head?, c ≠ '\'' ∧ c.isAlphanum = false

variable {rest : List Char}

theorem bounded_comma (rest : List Char) : Bounded (',' :: rest) := by
  intro c hc
  obtain rfl : ',' = c := Option.some.inj hc
  decide

theorem Bounded.isDigit (h : Bounded rest) : ∀ c ∈ rest.head?, c.isDigit = false := by
  intro c hc
  have halphanum := (h c hc).2
  simp [Char.isAlphanum] at halphanum
  exact halphanum.2

theorem Bounded.isAlpha (h : Bounded rest) : ∀ c ∈ rest.head?, c.isAlpha = false := by
  intro c hc
  have halphanum := (h c hc).2
  simp [Char.isAlphanum] at halphanum
  exact halphanum.1

theorem readQuoted_doubled (cs : List Char) (h : Bounded rest) :
    readQuoted (Text.doubled cs ++ '\'' :: rest) = some (cs, rest) := by
  induction cs with
  | nil =>
    have hend : ∀ tail, rest ≠ '\'' :: tail := by
      rintro tail rfl
      exact (h '\'' rfl).1 rfl
    simp [Text.doubled, readQuoted]
  | cons c cs ih =>
    by_cases hc : c = '\''
    · simp [Text.doubled, readQuoted, hc, ih]
    · simp [Text.doubled, readQuoted, hc, ih]

theorem readBytes_byteDigits (bs : List UInt8) (rest : List Char) :
    readBytes (bs.flatMap Text.byteDigits ++ '\'' :: rest) = some (bs, rest) := by
  induction bs with
  | nil => rfl
  | cons b bs ih =>
    have hlt := b.toNat_lt
    have hhigh := Text.hexValue?_hexDigitUpper (b.toNat / 16) (by omega)
    have hlow := Text.hexValue?_hexDigitUpper (b.toNat % 16) (by omega)
    have hquote : ∀ n < 16, Text.hexDigitUpper n ≠ '\'' := by decide
    have hvalue : UInt8.ofNat (16 * (b.toNat / 16) + b.toNat % 16) = b := by
      rw [Nat.div_add_mod]
      simp
    calc
      _ = readBytes (Text.hexDigitUpper (b.toNat / 16) :: Text.hexDigitUpper (b.toNat % 16) ::
          (bs.flatMap Text.byteDigits ++ '\'' :: rest)) := by
        rw [List.flatMap_cons, List.append_assoc]
        rfl
      _ = (readBytes (bs.flatMap Text.byteDigits ++ '\'' :: rest)).map
          (.map (UInt8.ofNat (16 * (b.toNat / 16) + b.toNat % 16) :: ·) id) := by
        rw [readBytes, hhigh, hlow]
        exact hquote _ (by omega)
      _ = some (b :: bs, rest) := by
        rw [ih, hvalue]
        rfl

theorem readNatural_toDigits (n : Nat) (h : Bounded rest) :
    readNatural (Nat.toDigits 10 n ++ rest) = some (n, rest) := by
  obtain ⟨c, digits, hdigits, -⟩ := Text.exists_toDigits_eq_cons n
  have hvalue := Text.ofDigits_toDigits n
  rw [readNatural, Text.spanDigits_toDigits n h.isDigit]
  rw [hdigits] at hvalue ⊢
  simp [hvalue]

theorem readInteger_toString (n : Int) (h : Bounded rest) :
    readInteger ((toString n).toList ++ rest) = some (n, rest) := by
  have hnatural := readNatural_toDigits n.natAbs h
  rw [Text.toList_toString_int, List.append_assoc]
  by_cases hneg : n < 0
  · have hvalue : -(n.natAbs : Int) = n := by omega
    rw [if_pos hneg, List.cons_append, List.nil_append, readInteger, hnatural]
    exact congrArg (fun m ↦ some (m, rest)) hvalue
  · have hvalue : (n.natAbs : Int) = n := by omega
    obtain ⟨c, digits, hdigits, hc⟩ := Text.exists_toDigits_eq_cons n.natAbs
    have hsign : c ≠ '-' ∧ c ≠ '+' := by
      constructor <;> rintro rfl <;> simp at hc
    rw [if_neg hneg, List.nil_append]
    rw [hdigits, List.cons_append] at hnatural ⊢
    rw [readInteger, hnatural]
    · exact congrArg (fun m ↦ some (m, rest)) hvalue
    · simp [hsign]
    · simp [hsign]

section Literals

variable (h : Bounded rest)

include h

theorem read?_quoted (s : String) :
    read? ((Text.quoted s).toList ++ rest) = some (.text s, rest) := by
  rw [Text.toList_quoted, List.append_assoc]
  simp [read?, readQuoted_doubled s.toList h]

theorem read?_keyword {word : List Char} {literal : Literal}
    (hword : keyword? word = some literal) : read? (word ++ rest) = some (literal, rest) := by
  have htake : rest.takeWhile Char.isAlpha = [] := by
    cases rest with
    | nil => rfl
    | cons c rest => simp [h.isAlpha c rfl]
  have hdrop : rest.dropWhile Char.isAlpha = rest := by
    cases rest with
    | nil => rfl
    | cons c rest => simp [h.isAlpha c rfl]
  unfold keyword? at hword
  split at hword
  case h_4 => simp at hword
  all_goals
    obtain rfl := Option.some.inj hword
    simp [read?, readInteger, readNatural, Text.spanDigits, keyword?, htake, hdrop]

theorem read?_integer (n : Int) :
    read? ((toString n).toList ++ rest) = some (.integer n, rest) := by
  obtain ⟨c, cs, hcs, hc⟩ := Text.exists_toString_int_eq_cons n
  have hread := readInteger_toString n h
  have hfirst : c ≠ '\'' ∧ c ≠ 'X' := by
    constructor <;> rintro rfl <;> simp at hc
  rw [hcs, List.cons_append] at hread ⊢
  simp [read?, hfirst, hread]

end Literals

end Literal

namespace Value

mutual

/-- What the literals of a value stand for, from left to right; a float has none. -/
def leaves : Value → List Literal
  | .null => [.null]
  | .bool b => [.bool b]
  | .int32 n => [.integer n.toInt]
  | .int64 n => [.integer n.toInt]
  | .float32 _ | .float64 _ => []
  | .text s => [.text s]
  | .bytes bs => [.bytes bs]
  | .json document => [.text document.print]
  | .array items => leavesOfAll items

def leavesOfAll : List Value → List Literal
  | [] => []
  | item :: rest => item.leaves ++ leavesOfAll rest

end

/-- The value holds no float, neither itself nor in an array, and no array without items. -/
inductive Legible : Value → Prop where
  | null : Legible .null
  | bool (b : Bool) : Legible (.bool b)
  | int32 (n : Int32) : Legible (.int32 n)
  | int64 (n : Int64) : Legible (.int64 n)
  | text (s : String) : Legible (.text s)
  | bytes (bs : List UInt8) : Legible (.bytes bs)
  | json (document : Json) : Legible (.json document)
  | array {items : List Value} (hne : items ≠ []) (h : ∀ item ∈ items, Legible item) :
    Legible (.array items)

open Literal

variable {rest : List Char}

/-- By induction on the items after the first: what follows an item is a comma or what follows the
array. -/
theorem readAll?_items {item : Value} {items : List Value}
    (hitems : ∀ x ∈ item :: items, ∀ {rest}, Bounded rest →
      readAll? (x.literal.toList ++ rest) = (readMore? rest).map (.map (x.leaves ++ ·) id))
    (h : Bounded rest) :
    readAll? ((",".intercalate (literals (item :: items))).toList ++ rest) =
      (readMore? rest).map (.map (leavesOfAll (item :: items) ++ ·) id) := by
  induction items generalizing item with
  | nil =>
    have hitem := hitems item List.mem_cons_self h
    simpa [literals, leavesOfAll] using hitem
  | cons next items ih =>
    obtain ⟨hitem, hrest⟩ := List.forall_mem_cons.mp hitems
    calc
      _ = readAll? (item.literal.toList ++
          ',' :: ((",".intercalate (literals (next :: items))).toList ++ rest)) := by
        simp [literals]
      _ = (readAll? ((",".intercalate (literals (next :: items))).toList ++ rest)).map
          (.map (item.leaves ++ ·) id) := by
        rw [hitem (bounded_comma _), readMore?]
      _ = ((readMore? rest).map (.map (leavesOfAll (next :: items) ++ ·) id)).map
          (.map (item.leaves ++ ·) id) := by
        rw [ih hrest]
      _ = (readMore? rest).map
          (.map ((item.leaves ++ ·) ∘ (leavesOfAll (next :: items) ++ ·)) id) := by
        rw [Option.map_map, Prod.map_comp_map]
        rfl
      _ = (readMore? rest).map (.map (leavesOfAll (item :: next :: items) ++ ·) id) := by
        simp only [Function.comp_def, ← List.append_assoc]
        rfl

theorem Legible.readAll?_literal {v : Value} (hv : v.Legible) (h : Bounded rest) :
    readAll? (v.literal.toList ++ rest) = (readMore? rest).map (.map (v.leaves ++ ·) id) := by
  induction hv generalizing rest with
  | null => exact readAll?_of_read? (read?_keyword h rfl)
  | bool b =>
    cases b with
    | false => exact readAll?_of_read? (read?_keyword h rfl)
    | true => exact readAll?_of_read? (read?_keyword h rfl)
  | int32 n => exact readAll?_of_read? (read?_integer h n.toInt)
  | int64 n => exact readAll?_of_read? (read?_integer h n.toInt)
  | text s => exact readAll?_of_read? (read?_quoted h s)
  | bytes bs =>
    refine readAll?_of_read? ?_
    simp [literal, read?, readBytes_byteDigits]
  | json document => exact readAll?_of_read? (read?_quoted h document.print)
  | @array items hne hitems ih =>
    obtain ⟨item, items, rfl⟩ := List.exists_cons_of_ne_nil hne
    exact readAll?_items ih h

theorem readMore?_of_head?_ne (h : rest.head? ≠ some ',') : readMore? rest = some ([], rest) := by
  rw [readMore?]
  rintro tail rfl
  exact h rfl

theorem Legible.readAll?_literal_of_ends {v : Value} (hv : v.Legible) (h : Bounded rest)
    (hcomma : rest.head? ≠ some ',') :
    readAll? (v.literal.toList ++ rest) = some (v.leaves, rest) := by
  rw [hv.readAll?_literal h, readMore?_of_head?_ne hcomma]
  simp

/-- Values that are written alike have the same leaves. -/
theorem Legible.leaves_eq {v w : Value} (hv : v.Legible) (hw : w.Legible)
    (h : v.literal = w.literal) : v.leaves = w.leaves := by
  have hbounded : Bounded [] := by simp [Bounded]
  have hread := hv.readAll?_literal_of_ends hbounded (by simp)
  rw [h, hw.readAll?_literal_of_ends hbounded (by simp)] at hread
  exact (congrArg Prod.fst (Option.some.inj hread)).symm

/-- The literal form of a value is read as the leaves of the value and nothing else, and so it is
wherever it stands, if what follows goes on neither with the last literal nor with the list.  It is
what the value shows in a query, which does not depend on the domain. -/
theorem literal_readsAsLeaves (v : Value) (hv : v.Legible) :
    readAll? v.literal.toList = some (v.leaves, []) ∧
      (∀ rest, Bounded rest → rest.head? ≠ some ',' →
        readAll? (v.literal.toList ++ rest) = some (v.leaves, rest)) ∧
      ∀ d, (Expr.literal v).render.outcome d = (.ok v.literal, d) := by
  have hread : ∀ rest, Bounded rest → rest.head? ≠ some ',' →
      readAll? (v.literal.toList ++ rest) = some (v.leaves, rest) :=
    fun _ h hcomma ↦ hv.readAll?_literal_of_ends h hcomma
  refine ⟨?_, hread, fun _ ↦ rfl⟩
  simpa using hread [] (by simp [Bounded]) (by simp)

/-- Runs of quotes, commas between quotes, the byte of a quote and a document with quotes. -/
def quotedMarks : Value :=
  .array [.text "''", .array [.text "','", .bytes [39, 0]], .int32 (-2147483648),
    .json (.object [("it's", .array [.string "X'", .null])])]

theorem quotedMarks_readsAsLeaves :
    quotedMarks.Legible ∧
      readAll? quotedMarks.literal.toList =
        some ([.text "''", .text "','", .bytes [39, 0], .integer (-2147483648),
          .text "\x7b\"it's\":[\"X'\",null]\x7d"], []) := by
  have hinner : (Value.array [.text "','", .bytes [39, 0]]).Legible :=
    .array (by simp) (List.forall_mem_cons.mpr ⟨.text _, List.forall_mem_singleton.mpr (.bytes _)⟩)
  have hlegible : quotedMarks.Legible :=
    .array (by simp) (List.forall_mem_cons.mpr ⟨.text _, List.forall_mem_cons.mpr ⟨hinner,
      List.forall_mem_cons.mpr ⟨.int32 _, List.forall_mem_singleton.mpr (.json _)⟩⟩⟩)
  exact ⟨hlegible, (literal_readsAsLeaves quotedMarks hlegible).1⟩

end Value
end ScopedSelect
