import ScopedSelect.Proofs.Json.RoundTrip
import ScopedSelect.Value.Tagged

/-!
# Reading the values that were stored

The tagged form of a value without floats is the text of a document, and that document is read as
the value.  So the value comes back from its tagged form, whatever it holds, if the reader's budget
of containers suffices (`tagged_readsBack`).
-/

namespace ScopedSelect
namespace Value

mutual

/-- How many containers stand inside each other in the tagged form: each tag is one. -/
def nesting : Value → Nat
  | .null => 0
  | .bytes _ => 2
  | .json document => document.nesting + 1
  | .array items => itemsNesting items + 2
  | _ => 1

def itemsNesting : List Value → Nat
  | [] => 0
  | item :: rest => max item.nesting (itemsNesting rest)

end

/-- The value holds no float, neither itself nor in an array or a document. -/
inductive FloatFree : Value → Prop where
  | null : FloatFree .null
  | bool (b : Bool) : FloatFree (.bool b)
  | int32 (n : Int32) : FloatFree (.int32 n)
  | int64 (n : Int64) : FloatFree (.int64 n)
  | text (s : String) : FloatFree (.text s)
  | bytes (bs : List UInt8) : FloatFree (.bytes bs)
  | json {document : Json} (h : document.FloatFree) : FloatFree (.json document)
  | array {items : List Value} (h : ∀ item ∈ items, FloatFree item) : FloatFree (.array items)

mutual

/-- The documents that a value holds. -/
def documents : Value → List Json
  | .json document => [document]
  | .array items => itemsDocuments items
  | _ => []

def itemsDocuments : List Value → List Json
  | [] => []
  | item :: rest => item.documents ++ itemsDocuments rest

end

/-- The keys of every object ascend strictly, as in every document that was read
(`Json.keysAscend_canonical`). -/
def KeysAscend (v : Value) : Prop :=
  ∀ document ∈ v.documents, document.KeysAscend

theorem documents_subset_itemsDocuments {items : List Value} {item : Value} (h : item ∈ items) :
    item.documents ⊆ itemsDocuments items := by
  induction items with
  | nil => simp at h
  | cons x rest ih =>
    rw [itemsDocuments]
    rcases List.mem_cons.mp h with rfl | h
    · exact List.subset_append_left _ _
    · exact List.Subset.trans (ih h) (List.subset_append_right _ _)

theorem FloatFree.hasNaN_eq_false {v : Value} (h : v.FloatFree) : v.hasNaN = false := by
  induction h with
  | json h => exact h.hasNaN_eq_false
  | array h ih => simpa [hasNaN, itemsHaveNaN_eq_any] using ih
  | _ => rfl

theorem FloatFree.beq_self {v : Value} (h : v.FloatFree) : v.beq v = true := by
  rw [Value.beq_self, h.hasNaN_eq_false]
  rfl

/-! ## The document of a value -/

mutual

/-- The document whose text is the tagged form; a float has none. -/
def toDocument : Value → Json
  | .null => .string "Null"
  | .bool b => .object [("Bool", .bool b)]
  | .int32 n => .object [("I32", .number (.whole n.toInt))]
  | .int64 n => .object [("I64", .number (.whole n.toInt))]
  | .float32 _ | .float64 _ => .null
  | .text s => .object [("String", .string s)]
  | .bytes bs => .object [("Bytes", .array (bs.map fun b ↦ .number (.whole b.toNat)))]
  | .json document => .object [("Json", document)]
  | .array items => .object [("Array", .array (itemsToDocument items))]

def itemsToDocument : List Value → List Json
  | [] => []
  | item :: rest => item.toDocument :: itemsToDocument rest

end

theorem itemsToDocument_eq_map (items : List Value) :
    itemsToDocument items = items.map toDocument := by
  induction items with
  | nil => rfl
  | cons item rest ih => rw [itemsToDocument, ih, List.map_cons]

/-- An object with one member is written as a tag, if its key needs no escapes. -/
theorem print_tag (kind : String) (hkind : Json.printString kind = "\"" ++ kind ++ "\"")
    (payload : Json) : (Json.object [(kind, payload)]).print = tag kind payload.print := by
  apply String.toList_injective
  simp [Json.print, Json.printMembers, hkind, tag]

theorem print_array (items : List Json) :
    (Json.array items).print = bracketed (items.map Json.print) := by
  rw [Json.print, Json.printItems_eq_map, bracketed]

theorem print_toDocument {v : Value} (h : v.FloatFree) : v.toDocument.print = v.tagged := by
  induction h with
  | null => rfl
  | bool b => rw [toDocument, print_tag "Bool" rfl, tagged]
  | int32 n =>
    rw [toDocument, print_tag "I32" rfl, tagged]
    rfl
  | int64 n =>
    rw [toDocument, print_tag "I64" rfl, tagged]
    rfl
  | text s =>
    rw [toDocument, print_tag "String" rfl, tagged]
    rfl
  | bytes bs =>
    rw [toDocument, print_tag "Bytes" rfl, print_array, List.map_map, tagged]
    rfl
  | json h => rw [toDocument, print_tag "Json" rfl, tagged]
  | @array items h ih =>
    have hitems : (items.map toDocument).map Json.print = items.map tagged := by
      rw [List.map_map]
      exact List.map_congr_left ih
    calc
      _ = tag "Array" (Json.array (items.map toDocument)).print := by
        rw [toDocument, print_tag "Array" rfl, itemsToDocument_eq_map]
      _ = tag "Array" (bracketed (items.map tagged)) := by
        rw [print_array, hitems]
      _ = (array items).tagged := by
        rw [tagged, taggedItems_eq_map]

theorem floatFree_toDocument {v : Value} (h : v.FloatFree) : v.toDocument.FloatFree := by
  have htag {kind : String} {payload : Json} (h : payload.FloatFree) :
      (Json.object [(kind, payload)]).FloatFree :=
    .object (List.forall_mem_singleton.mpr h)
  induction h with
  | null => exact .string _
  | bool b => exact htag (.bool b)
  | int32 n =>
    have hle := n.le_toInt
    have hlt := n.toInt_lt
    exact htag (.number _ (by omega))
  | int64 n =>
    have hle := n.le_toInt
    have hlt := n.toInt_lt
    exact htag (.number _ (by omega))
  | text s => exact htag (.string s)
  | bytes bs =>
    refine htag (.array fun item hitem ↦ ?_)
    obtain ⟨b, -, rfl⟩ := List.mem_map.mp hitem
    have hlt := b.toNat_lt
    exact .number _ (by omega)
  | json h => exact htag h
  | array h ih =>
    rw [toDocument, itemsToDocument_eq_map]
    refine htag (.array fun item hitem ↦ ?_)
    obtain ⟨v, hv, rfl⟩ := List.mem_map.mp hitem
    exact ih v hv

theorem itemsNesting_toDocument {items : List Value}
    (h : ∀ item ∈ items, item.toDocument.nesting = item.nesting) :
    Json.itemsNesting (items.map toDocument) = itemsNesting items := by
  induction items with
  | nil => rfl
  | cons item rest ih =>
    obtain ⟨hitem, hrest⟩ := List.forall_mem_cons.mp h
    rw [List.map_cons, Json.itemsNesting, itemsNesting, hitem, ih hrest]

theorem nesting_toDocument {v : Value} (h : v.FloatFree) : v.toDocument.nesting = v.nesting := by
  have htag (kind : String) (payload : Json) :
      (Json.object [(kind, payload)]).nesting = payload.nesting + 1 := by
    simp [Json.nesting, Json.membersNesting]
  induction h with
  | null => rfl
  | bool b => exact htag _ _
  | int32 n => exact htag _ _
  | int64 n => exact htag _ _
  | text s => exact htag _ _
  | bytes bs =>
    have hflat : Json.itemsNesting (bs.map fun b ↦ .number (.whole b.toNat)) = 0 := by
      induction bs with
      | nil => rfl
      | cons b bs ih => simp [Json.itemsNesting, Json.nesting, ih]
    rw [toDocument, htag, Json.nesting, hflat, nesting]
  | json h => exact htag _ _
  | array h ih =>
    rw [toDocument, htag, Json.nesting, itemsToDocument_eq_map, itemsNesting_toDocument ih, nesting]

/-! ## Reading the document -/

theorem wholeIn?_of_mem {least greatest n : Int} (h : least ≤ n ∧ n ≤ greatest) :
    wholeIn? least greatest (.number (.whole n)) = some n :=
  if_pos h

theorem byteOf?_toNat (b : UInt8) : byteOf? (.number (.whole b.toNat)) = some b := by
  have hlt := b.toNat_lt
  rw [byteOf?, wholeIn?_of_mem (by omega)]
  simp

theorem mapM_byteOf? (bs : List UInt8) :
    (bs.map fun b ↦ Json.number (.whole b.toNat)).mapM byteOf? = some bs := by
  induction bs with
  | nil => rfl
  | cons b bs ih =>
    rw [List.map_cons, List.mapM_cons, byteOf?_toNat, ih]
    rfl

/-- Only the tag of an array is not read by its payload alone. -/
theorem ofTagged?_tag {kind : String} (hkind : kind ≠ "Array") (payload : Json) :
    ofTagged? (.object [(kind, payload)]) = ofPayload? kind payload := by
  cases payload <;> simp [ofTagged?, hkind]

theorem ofPayload?_json (document : Json) :
    ofPayload? "Json" document = some (.json document.canonical) := by
  cases document <;> simp [ofPayload?]

theorem ofTaggedItems?_map {items : List Value}
    (h : ∀ item ∈ items, ofTagged? item.toDocument = some item) :
    ofTaggedItems? (items.map toDocument) = some items := by
  induction items with
  | nil => rfl
  | cons item rest ih =>
    obtain ⟨hitem, hrest⟩ := List.forall_mem_cons.mp h
    rw [List.map_cons, ofTaggedItems?, hitem, ih hrest]
    rfl

/-- By induction on the value; only a document has to be in its canonical form for this. -/
theorem ofTagged?_toDocument {v : Value} (h : v.FloatFree) (hkeys : v.KeysAscend) :
    ofTagged? v.toDocument = some v := by
  induction h with
  | null => rfl
  | bool b => rfl
  | int32 n =>
    have hle := n.le_toInt
    have hlt := n.toInt_lt
    rw [toDocument, ofTagged?_tag (by decide), ofPayload?, wholeIn?_of_mem (by omega)]
    simp
  | int64 n =>
    have hle := n.le_toInt
    have hlt := n.toInt_lt
    rw [toDocument, ofTagged?_tag (by decide), ofPayload?, wholeIn?_of_mem (by omega)]
    simp
  | text s => rfl
  | bytes bs =>
    rw [toDocument, ofTagged?_tag (by decide), ofPayload?, mapM_byteOf?]
    rfl
  | @json document h =>
    have hcanonical : document.canonical = document := (hkeys _ List.mem_cons_self).canonical_eq
    rw [toDocument, ofTagged?_tag (by decide), ofPayload?_json, hcanonical]
  | @array items h ih =>
    have hitems : ofTaggedItems? (items.map toDocument) = some items :=
      ofTaggedItems?_map fun item hitem ↦
        ih item hitem fun d hd ↦ hkeys d (documents_subset_itemsDocuments hitem hd)
    rw [toDocument, itemsToDocument_eq_map, ofTagged?, if_pos rfl, hitems]
    rfl

/-- A value without floats comes back from its tagged form, and equals itself, if at most 127
containers stand inside each other in that form. -/
theorem tagged_readsBack (v : Value) (h : v.FloatFree) (hkeys : v.KeysAscend)
    (hnesting : v.nesting ≤ 127) :
    readTagged? v.tagged = some v ∧ (v == v) = true := by
  have hread : Json.parseWritten? v.toDocument.print = some v.toDocument :=
    (floatFree_toDocument h).parseWritten?_print (by rwa [nesting_toDocument h])
  refine ⟨?_, h.beq_self⟩
  rw [readTagged?, ← print_toDocument h, hread, Option.bind_some, ofTagged?_toDocument h hkeys]

/-- A document with the least and the greatest number and with an object without members. -/
def extremes : Json :=
  .object [
    ("", .array [.number (.whole (-0x8000000000000000)), .number (.whole 0xFFFFFFFFFFFFFFFF)]),
    ("empty", .array [.null, .object []])]

def archived : Value :=
  .array [.text "\x01 \"quoted\" \n", .bytes [0, 255], .json extremes]

theorem archived_readsBack :
    archived.FloatFree ∧ archived.KeysAscend ∧ archived.nesting ≤ 127 ∧
      readTagged? archived.tagged = some archived ∧ (archived == archived) = true := by
  have hextremes : extremes.FloatFree := by
    refine .object (List.forall_mem_cons.mpr ⟨.array ?_, List.forall_mem_singleton.mpr (.array ?_)⟩)
    · exact List.forall_mem_cons.mpr ⟨.number _ (by decide),
        List.forall_mem_singleton.mpr (.number _ (by decide))⟩
    · exact List.forall_mem_cons.mpr ⟨.null, List.forall_mem_singleton.mpr (.object (by simp))⟩
  have hfree : archived.FloatFree :=
    .array (List.forall_mem_cons.mpr ⟨.text _, List.forall_mem_cons.mpr ⟨.bytes _,
      List.forall_mem_singleton.mpr (.json hextremes)⟩⟩)
  have hkeys : archived.KeysAscend := by
    have hcanonical : extremes.canonical = extremes := rfl
    refine List.forall_mem_singleton.mpr ?_
    rw [← hcanonical]
    exact Json.keysAscend_canonical _
  have hnesting : archived.nesting ≤ 127 := by decide
  exact ⟨hfree, hkeys, hnesting, tagged_readsBack archived hfree hkeys hnesting⟩

end Value
end ScopedSelect
