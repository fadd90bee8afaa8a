import ScopedSelect.Proofs.Json.Document
import ScopedSelect.Proofs.Json.Tokens

/-!
# Reading the documents that were printed

What is written for the elements of a container is read back if that is so of each element.  So a
document without binary numbers is read back from its text, if the budget of containers suffices
(`Json.FloatFree.readsBack`).
-/

namespace ScopedSelect
namespace Json

/-! ## Containers -/

section Elements

variable {α : Type}

/-- What is written for a value can stand in a container and is read back there. -/
structure ReadsBack (element : List Char → Option (α × List Char)) (write : α → List Char) (x : α) :
    Prop where
  begun : Begun (write x)
  read {rest : List Char} (h : Delimited rest) : element (write x ++ rest) = some (x, rest)

variable {element : List Char → Option (α × List Char)} {write : α → List Char} {close : Char}

/-- Elements with commas between them are read one after the other, by induction on what is left
after the first. -/
theorem readElements_intercalate (hclose : close = ']' ∨ close = '\x7d') {x : α} {xs : List α}
    (hxs : ∀ y ∈ x :: xs, ReadsBack element write y)
    {steps : Nat} (hsteps : xs.length < steps) (rest : List Char) :
    readElements element close steps ([','].intercalate ((x :: xs).map write) ++ close :: rest) =
      some (x :: xs, rest) := by
  have hcomma : ',' ≠ close := by rcases hclose with rfl | rfl <;> decide
  induction xs generalizing x steps with
  | nil =>
    obtain ⟨steps, rfl⟩ := Nat.exists_eq_add_one.mpr (Nat.zero_lt_of_lt hsteps)
    obtain ⟨hbegun, hread⟩ := hxs x List.mem_cons_self
    have hend := delimited_close hclose rest
    rw [List.map_singleton, List.intercalate_singleton, readElements,
      (hbegun.append _).skipSpaces_eq, hread hend]
    simp [skipSpaces_of_delimited hend]
  | cons y ys ih =>
    obtain ⟨steps, rfl⟩ := Nat.exists_eq_add_one.mpr (Nat.zero_lt_of_lt hsteps)
    obtain ⟨⟨hbegun, hread⟩, hrest⟩ := List.forall_mem_cons.mp hxs
    have hnext := delimited_comma ([','].intercalate ((y :: ys).map write) ++ close :: rest)
    calc
      _ = readElements element close (steps + 1)
          (write x ++ ',' :: ([','].intercalate ((y :: ys).map write) ++ close :: rest)) := by
        rw [List.map_cons, List.intercalate_cons_of_ne_nil (by simp), List.append_assoc,
          List.append_assoc, List.singleton_append]
      _ = (readElements element close steps
          ([','].intercalate ((y :: ys).map write) ++ close :: rest)).bind
            fun p ↦ some (x :: p.1, p.2) := by
        rw [readElements, (hbegun.append _).skipSpaces_eq, hread hnext]
        simp only [Option.bind_eq_bind, Option.bind_some, skipSpaces_of_delimited hnext,
          if_neg hcomma, if_true]
        rfl
      _ = some (x :: y :: ys, rest) := by
        rw [ih hrest (Nat.lt_of_succ_lt_succ hsteps)]
        rfl

theorem length_le_length_intercalate (write : α → List Char) (x : α) (xs : List α) :
    xs.length ≤ ([','].intercalate ((x :: xs).map write)).length := by
  induction xs generalizing x with
  | nil => simp
  | cons y ys ih =>
    have hrest := ih y
    rw [List.map_cons, List.intercalate_cons_of_ne_nil (by simp)]
    simp only [List.length_append, List.length_cons] at hrest ⊢
    omega

theorem begun_intercalate {x : α} (h : Begun (write x)) (xs : List α) :
    Begun ([','].intercalate ((x :: xs).map write)) := by
  cases xs with
  | nil => rwa [List.map_singleton, List.intercalate_singleton]
  | cons y ys =>
    rw [List.map_cons, List.intercalate_cons_of_ne_nil (by simp), List.append_assoc]
    exact h.append _

/-- A container is read up to its end, whatever it holds. -/
theorem readContents_intercalate (hclose : close = ']' ∨ close = '\x7d') {xs : List α}
    (hxs : ∀ x ∈ xs, ReadsBack element write x) (rest : List Char) :
    readContents element close ([','].intercalate (xs.map write) ++ close :: rest) =
      some (xs, rest) := by
  cases xs with
  | nil =>
    have hend := skipSpaces_of_delimited (delimited_close hclose rest)
    simp [readContents, hend]
  | cons x xs =>
    have hbegun : Begun ([','].intercalate ((x :: xs).map write) ++ close :: rest) :=
      (begun_intercalate (hxs x List.mem_cons_self).begun xs).append _
    have hsteps :
        xs.length < ([','].intercalate ((x :: xs).map write) ++ close :: rest).length := by
      have hlength := length_le_length_intercalate write x xs
      rw [List.length_append, List.length_cons]
      omega
    have hread := readElements_intercalate hclose hxs hsteps rest
    generalize [','].intercalate ((x :: xs).map write) ++ close :: rest = cs at hbegun hread ⊢
    have hskip := hbegun.skipSpaces_eq
    cases hbegun with
    | @intro c cs hspace hbracket hbrace =>
      have hopen : c ≠ close := by
        rcases hclose with rfl | rfl
        · exact hbracket
        · exact hbrace
      rw [readContents, hskip]
      simp only [if_neg hopen, hread]

end Elements

/-! ## Documents -/

theorem toList_print_array (items : List Json) :
    (print (.array items)).toList =
      '[' :: ([','].intercalate (items.map fun item ↦ item.print.toList) ++ [']']) := by
  simp [print, printItems_eq_map, String.toList_intercalate, Function.comp_def]

/-- The characters of one member of an object. -/
def memberText (member : String × Json) : List Char :=
  (printString member.1).toList ++ ':' :: member.2.print.toList

theorem toList_print_object (members : List (String × Json)) :
    (print (.object members)).toList =
      '\x7b' :: ([','].intercalate (members.map memberText) ++ ['\x7d']) := by
  have htext : String.toList ∘ (fun member : String × Json ↦
      printString member.1 ++ ":" ++ member.2.print) = memberText := by
    funext member
    simp [memberText]
  simp [print, printMembers_eq_map, String.toList_intercalate, htext]

theorem FloatFree.begun_print {d : Json} (h : d.FloatFree) : Begun d.print.toList := by
  cases h with
  | null => exact .intro (c := 'n') (by decide) (by decide) (by decide)
  | bool b =>
    cases b
    · exact .intro (c := 'f') (by decide) (by decide) (by decide)
    · exact .intro (c := 't') (by decide) (by decide) (by decide)
  | number n h =>
    obtain ⟨c, cs, hcs, hc⟩ := Text.exists_toString_int_eq_cons n
    rw [print, printNumber, hcs]
    exact begun_of_sign_or_digit hc cs
  | string s => exact begun_printString s
  | array h =>
    rw [toList_print_array]
    exact .intro (by decide) (by decide) (by decide)
  | object h =>
    rw [toList_print_object]
    exact .intro (by decide) (by decide) (by decide)

theorem readsBack_member {member : String × Json} {value : List Char → Option (Json × List Char)}
    (h : ReadsBack value (fun d ↦ d.print.toList) member.2) :
    ReadsBack (readMember value) memberText member where
  begun := (begun_printString member.1).append _
  read := by
    intro rest hrest
    have hread := h.read hrest
    have hcolon : skipSpaces (':' :: (member.2.print.toList ++ rest)) =
        ':' :: (member.2.print.toList ++ rest) := rfl
    have hvalue := (h.begun.append rest).skipSpaces_eq
    rw [memberText, List.append_assoc, List.cons_append, readMember]
    simp [readString_printString, hcolon, hvalue, hread]

theorem readDocument_number (depth : Nat) {c : Char} (hc : c = '-' ∨ c.isDigit = true)
    (cs : List Char) :
    readDocument depth (c :: cs) =
      (readNumber (c :: cs)).map fun (n, rest) ↦ (.number n, rest) := by
  have hne {c' : Char} (hminus : c' ≠ '-') (hdigit : c'.isDigit = false) {cs' : List Char} :
      c :: cs = c' :: cs' → False := by
    intro h
    obtain ⟨rfl, -⟩ := List.cons.inj h
    simp [hminus, hdigit] at hc
  rw [readDocument]
  all_goals exact fun _ ↦ hne (by decide) (by decide)

/-- A document without binary numbers is read back from its text, by induction on the document: the
budget of containers shrinks as the containers open. -/
theorem FloatFree.readsBack {d : Json} (h : d.FloatFree) {depth : Nat}
    (hdepth : d.nesting ≤ depth) :
    ReadsBack (readDocument depth) (fun d ↦ d.print.toList) d := by
  refine ⟨h.begun_print, ?_⟩
  induction h generalizing depth with
  | null =>
    intro rest _
    simp [print, readDocument, skipWord]
  | bool b =>
    intro rest _
    cases b <;> simp [print, readDocument, skipWord]
  | number n h =>
    intro rest hrest
    have hread := readNumber_whole h hrest
    obtain ⟨c, cs, hcs, hc⟩ := Text.exists_toString_int_eq_cons n
    rw [print, printNumber]
    rw [hcs, List.cons_append] at hread ⊢
    rw [readDocument_number depth hc, hread]
    rfl
  | string s =>
    intro rest _
    have hread := readString_printString s rest
    rw [print]
    rw [toList_printString, List.cons_append] at hread ⊢
    rw [readDocument, hread]
    rfl
  | @array items h ih =>
    intro rest _
    rw [nesting] at hdepth
    obtain ⟨depth, rfl⟩ := Nat.exists_eq_add_one.mpr (Nat.zero_lt_of_lt hdepth)
    have hitems : ∀ item ∈ items, ReadsBack (readDocument depth) (fun d ↦ d.print.toList) item := by
      intro item hitem
      have hle := nesting_le_itemsNesting hitem
      exact ⟨(h item hitem).begun_print, ih item hitem (by omega)⟩
    have hread := readContents_intercalate (.inl rfl) hitems rest
    have htext : (print (.array items)).toList ++ rest =
        '[' :: ([','].intercalate (items.map fun item ↦ item.print.toList) ++ ']' :: rest) := by
      simp [toList_print_array]
    rw [htext, readDocument, hread]
    rfl
  | @object members h ih =>
    intro rest _
    rw [nesting] at hdepth
    obtain ⟨depth, rfl⟩ := Nat.exists_eq_add_one.mpr (Nat.zero_lt_of_lt hdepth)
    have hmembers : ∀ member ∈ members,
        ReadsBack (readMember (readDocument depth)) memberText member := by
      intro member hmember
      have hle := nesting_le_membersNesting hmember
      exact readsBack_member ⟨(h member hmember).begun_print, ih member hmember (by omega)⟩
    have hread := readContents_intercalate (.inr rfl) hmembers rest
    have htext : (print (.object members)).toList ++ rest =
        '\x7b' :: ([','].intercalate (members.map memberText) ++ '\x7d' :: rest) := by
      simp [toList_print_object]
    rw [htext, readDocument, hread]
    rfl

theorem FloatFree.parseWritten?_print {d : Json} (h : d.FloatFree) (hdepth : d.nesting ≤ 127) :
    parseWritten? d.print = some d := by
  have hreads : ReadsBack (readDocument deepest) (fun d ↦ d.print.toList) d := h.readsBack hdepth
  have hread : readDocument deepest (d.print.toList ++ []) = some (d, []) :=
    hreads.read (by simp [Delimited])
  rw [List.append_nil] at hread
  rw [parseWritten?, hreads.begun.skipSpaces_eq, hread]
  rfl

end Json
end ScopedSelect
