import ScopedSelect.Proofs.Condition.Grouping

/-!
# The text of a condition tree tells its grouping

If the leaves of a condition tree are words, its text can be read in one way only: each group stands
in parentheses of its own, what follows a member tells whether the group goes on and how, and no
operator is taken for a null test.  Two trees with the same text therefore have the same operators,
members and nesting, and the same texts at their leaves (`read_eq_of_render_eq`).
-/

namespace ScopedSelect

namespace Text

/-- The characters that end a word. -/
def delimiters : List Char := [' ', ',', '(', ')']

/-- A text that is read as one word: it is not empty and nothing in it ends a word. -/
structure IsWord (s : String) : Prop where
  nonempty : s.toList ≠ []
  plain : ∀ c ∈ s.toList, c ∉ delimiters

instance (s : String) : Decidable (IsWord s) :=
  decidable_of_iff (s.toList ≠ [] ∧ s.toList.all (· ∉ delimiters) = true)
    ⟨fun h ↦ ⟨h.1, by simpa using h.2⟩, fun h ↦ ⟨h.nonempty, by simpa using h.plain⟩⟩

/-- A word that stands here is over: nothing follows, or what follows ends it. -/
def Stops (rest : List Char) : Prop :=
  ∀ c ∈ rest.head?, c ∈ delimiters

theorem stops_cons {c : Char} (hc : c ∈ delimiters) (rest : List Char) : Stops (c :: rest) := by
  intro c' hc'
  rwa [← Option.some.inj hc']

theorem append_inj_of_stops {word word' rest rest' : List Char}
    (hword : ∀ c ∈ word, c ∉ delimiters) (hword' : ∀ c ∈ word', c ∉ delimiters)
    (hrest : Stops rest) (hrest' : Stops rest') (h : word ++ rest = word' ++ rest') :
    word = word' ∧ rest = rest' := by
  induction word generalizing word' with
  | nil =>
    cases word' with
    | nil => exact ⟨rfl, h⟩
    | cons c word' =>
      have hc : c ∈ delimiters := hrest c (by simp_all)
      exact absurd hc (hword' c List.mem_cons_self)
  | cons c word ih =>
    cases word' with
    | nil =>
      have hhead : rest'.head? = some c := by
        rw [List.nil_append] at h
        rw [← h]
        rfl
      have hc : c ∈ delimiters := hrest' c hhead
      exact absurd hc (hword c List.mem_cons_self)
    | cons c' word' =>
      rw [List.cons_append, List.cons_append, List.cons.injEq] at h
      obtain ⟨rfl, htail⟩ := h
      have hsame := ih (fun x hx ↦ hword x (List.mem_cons_of_mem c hx))
        (fun x hx ↦ hword' x (List.mem_cons_of_mem c hx)) htail
      exact ⟨by rw [hsame.1], hsame.2⟩

theorem IsWord.append_inj {word word' : String} {rest rest' : List Char} (hword : IsWord word)
    (hword' : IsWord word') (hrest : Stops rest) (hrest' : Stops rest')
    (h : word.toList ++ rest = word'.toList ++ rest') : word = word' ∧ rest = rest' := by
  have hsame := append_inj_of_stops hword.plain hword'.plain hrest hrest' h
  exact ⟨String.toList_inj.mp hsame.1, hsame.2⟩

theorem IsWord.append_ne_cons {word : String} (hword : IsWord word) (rest rest' : List Char) :
    word.toList ++ rest ≠ '(' :: rest' := by
  intro h
  obtain ⟨c, cs, hcs⟩ := List.exists_cons_of_ne_nil hword.nonempty
  obtain ⟨rfl, -⟩ : c = '(' ∧ cs ++ rest = rest' := by simpa [hcs] using h
  exact hword.plain '(' (by simp [hcs]) (by decide)

theorem toList_intercalate_cons (separator text : String) (texts : List String) :
    (separator.intercalate (text :: texts)).toList =
      text.toList ++ texts.flatMap fun t ↦ separator.toList ++ t.toList := by
  induction texts generalizing text with
  | nil => simp
  | cons t texts ih =>
    calc
      _ = text.toList ++ separator.toList ++ (separator.intercalate (t :: texts)).toList := by
        rw [String.intercalate_cons_cons, String.toList_append, String.toList_append]
      _ = text.toList ++ separator.toList ++
          (t.toList ++ texts.flatMap fun t ↦ separator.toList ++ t.toList) := by
        rw [ih]
      _ = text.toList ++ (t :: texts).flatMap fun t ↦ separator.toList ++ t.toList := by
        rw [List.flatMap_cons, List.append_assoc, List.append_assoc]

end Text

open Text

theorem Operator.isWord_text : ∀ op ∈ Operator.standard, IsWord op.text := by
  decide

namespace Connective

variable {c c' : Connective} {rest rest' : List Char}

theorem stops_separator (c : Connective) (rest : List Char) :
    Stops (c.separator.toList ++ rest) := by
  cases c with
  | operator op standard =>
    rw [separator, String.append_assoc, String.toList_append]
    exact stops_cons (by decide) _
  | comma => exact stops_cons (by decide) _

theorem toList_separator_operator (op : Operator) (standard : op ∈ Operator.standard) :
    (operator op standard).separator.toList ++ rest = ' ' :: (op.text.toList ++ ' ' :: rest) := by
  simp [separator]

theorem eq_of_separator_append (h : c.separator.toList ++ rest = c'.separator.toList ++ rest') :
    c = c' ∧ rest = rest' := by
  cases c with
  | operator op standard =>
    cases c' with
    | operator op' standard' =>
      rw [toList_separator_operator, toList_separator_operator, List.cons.injEq] at h
      have hsame := (Operator.isWord_text op standard).append_inj
        (Operator.isWord_text op' standard') (stops_cons (by decide) rest)
        (stops_cons (by decide) rest') h.2
      obtain rfl : op = op' := by
        cases op
        cases op'
        exact congrArg Operator.mk hsame.1
      exact ⟨rfl, (List.cons.inj hsame.2).2⟩
    | comma =>
      rw [toList_separator_operator] at h
      simp [separator] at h
  | comma =>
    cases c' with
    | operator op' standard' =>
      rw [toList_separator_operator] at h
      simp [separator] at h
    | comma => exact ⟨rfl, List.append_cancel_left h⟩

end Connective

namespace Grouping

theorem toList_testSuffix (negated : Bool) (rest : List Char) :
    (testSuffix negated).toList ++ rest =
      ' ' :: ("IS".toList ++ ' ' :: ((if negated then "NOT NULL" else "NULL").toList ++ rest)) := by
  cases negated <;> simp [testSuffix]

theorem stops_testSuffix (negated : Bool) (rest : List Char) :
    Stops ((testSuffix negated).toList ++ rest) := by
  rw [toList_testSuffix]
  exact stops_cons (by decide) _

theorem eq_of_testSuffix_append {negated negated' : Bool} {rest rest' : List Char}
    (h : (testSuffix negated).toList ++ rest = (testSuffix negated').toList ++ rest') :
    negated = negated' ∧ rest = rest' := by
  cases negated <;> cases negated' <;> simp_all [testSuffix]

/-- No operator reads like the word of a null test. -/
theorem separator_append_ne_testSuffix (c : Connective) (negated : Bool) (rest rest' : List Char) :
    c.separator.toList ++ rest ≠ (testSuffix negated).toList ++ rest' := by
  intro h
  rw [toList_testSuffix] at h
  cases c with
  | operator op standard =>
    rw [Connective.toList_separator_operator, List.cons.injEq] at h
    have his : IsWord "IS" := by decide
    have htext : op.text = "IS" := ((Operator.isWord_text op standard).append_inj his
      (stops_cons (by decide) _) (stops_cons (by decide) _) h.2).1
    have hstandard : ∀ op ∈ Operator.standard, op.text ≠ "IS" := by decide
    exact hstandard op standard htext
  | comma => simp [Connective.separator] at h

def OfWords (g : Grouping String) : Prop :=
  ∀ word ∈ g.leaves, IsWord word

/-- The members of a group after the first one, each after what joins it to those before. -/
def membersAfter (c : Connective) (gs : List (Grouping String)) : List Char :=
  gs.flatMap fun g ↦ c.separator.toList ++ g.text.toList

theorem membersAfter_cons (c : Connective) (g : Grouping String) (gs : List (Grouping String))
    (tail : List Char) :
    membersAfter c (g :: gs) ++ tail =
      c.separator.toList ++ (g.text.toList ++ (membersAfter c gs ++ tail)) := by
  simp [membersAfter]

theorem toList_text_joined (c : Connective) (first second : Grouping String)
    (rest : List (Grouping String)) (tail : List Char) :
    (joined c first second rest).text.toList ++ tail =
      '(' :: (first.text.toList ++ (membersAfter c (second :: rest) ++ ')' :: tail)) := by
  have hmembers : (second.text :: rest.map text).flatMap
      (fun t ↦ c.separator.toList ++ t.toList) = membersAfter c (second :: rest) := by
    rw [← List.map_cons, List.flatMap_map]
    rfl
  rw [text_joined, toList_parenthesized, toList_intercalate_cons, hmembers]
  simp

theorem toList_text_nullTest (negated : Bool) (operand : Grouping String) (tail : List Char) :
    (nullTest negated operand).text.toList ++ tail =
      '(' :: (operand.text.toList ++ ((testSuffix negated).toList ++ ')' :: tail)) := by
  rw [text_nullTest, toList_parenthesized]
  simp

/-- A grouping is told by its text, whatever comes behind, and so is where it ends. -/
def ReadOff (g : Grouping String) : Prop :=
  ∀ g' : Grouping String, g'.OfWords → ∀ rest rest', Stops rest → Stops rest' →
    g.text.toList ++ rest = g'.text.toList ++ rest' → g = g' ∧ rest = rest'

theorem stops_membersAfter (c : Connective) (gs : List (Grouping String)) (rest : List Char) :
    Stops (membersAfter c gs ++ ')' :: rest) := by
  cases gs with
  | nil => exact stops_cons (by decide) rest
  | cons g gs =>
    rw [membersAfter_cons]
    exact c.stops_separator _

theorem membersAfter_inj {c : Connective} {gs gs' : List (Grouping String)} {rest rest' : List Char}
    (hgs : ∀ g ∈ gs, g.ReadOff) (hgs' : ∀ g ∈ gs', g.OfWords)
    (h : membersAfter c gs ++ ')' :: rest = membersAfter c gs' ++ ')' :: rest') :
    gs = gs' ∧ rest = rest' := by
  have hends (g : Grouping String) (gs : List (Grouping String)) (rest rest' : List Char) :
      ')' :: rest ≠ membersAfter c (g :: gs) ++ rest' := by
    rw [membersAfter_cons]
    cases c with
    | operator op standard =>
      rw [Connective.toList_separator_operator]
      simp
    | comma => simp [Connective.separator]
  induction gs generalizing gs' with
  | nil =>
    cases gs' with
    | nil => exact ⟨rfl, (List.cons.inj h).2⟩
    | cons g' gs' => exact absurd h (hends g' gs' rest _)
  | cons g gs ih =>
    cases gs' with
    | nil => exact absurd h.symm (hends g gs rest' _)
    | cons g' gs' =>
      rw [membersAfter_cons, membersAfter_cons] at h
      have hmember := List.append_cancel_left h
      obtain ⟨rfl, htail⟩ := hgs g List.mem_cons_self g' (hgs' g' List.mem_cons_self) _ _
        (stops_membersAfter c gs rest) (stops_membersAfter c gs' rest') hmember
      have hrest := ih (fun x hx ↦ hgs x (List.mem_cons_of_mem g hx))
        (fun x hx ↦ hgs' x (List.mem_cons_of_mem g hx)) htail
      exact ⟨by rw [hrest.1], hrest.2⟩

theorem OfWords.first {c : Connective} {g second : Grouping String} {rest : List (Grouping String)}
    (h : (joined c g second rest).OfWords) : g.OfWords := by
  intro word hword
  refine h word ?_
  rw [leaves_joined]
  exact List.mem_append_left _ hword

theorem OfWords.others {c : Connective} {first second : Grouping String}
    {rest : List (Grouping String)} (h : (joined c first second rest).OfWords) :
    ∀ g ∈ second :: rest, g.OfWords := by
  intro g hg word hword
  refine h word ?_
  rw [leaves_joined, ← List.flatMap_cons]
  exact List.mem_append_right _ (List.mem_flatMap.mpr ⟨g, hg, hword⟩)

theorem OfWords.operand {negated : Bool} {g : Grouping String}
    (h : (nullTest negated g).OfWords) : g.OfWords := by
  intro word hword
  refine h word ?_
  rwa [leaves_nullTest]

theorem readOff_leaf {word : String} (hword : IsWord word) : (leaf word).ReadOff := by
  intro g' hg' rest rest' hrest hrest' h
  have htext (word : String) : (leaf word).text = word := by rw [text, fold, id]
  rw [htext] at h
  cases g' with
  | leaf word' =>
    have hword' : IsWord word' := hg' word' (by simp [leaves, fold])
    rw [htext] at h
    obtain ⟨rfl, hsame⟩ := hword.append_inj hword' hrest hrest' h
    exact ⟨rfl, hsame⟩
  | joined c' first' second' rest'' =>
    rw [toList_text_joined] at h
    exact absurd h (hword.append_ne_cons _ _)
  | nullTest negated' operand' =>
    rw [toList_text_nullTest] at h
    exact absurd h (hword.append_ne_cons _ _)

theorem readOff_joined {c : Connective} {first second : Grouping String}
    {others : List (Grouping String)} (hfirst : first.ReadOff)
    (hothers : ∀ g ∈ second :: others, g.ReadOff) : (joined c first second others).ReadOff := by
  intro g' hg' rest rest' hrest hrest' h
  rw [toList_text_joined] at h
  cases g' with
  | leaf word' =>
    have hword' : IsWord word' := hg' word' (by simp [leaves, fold])
    exact absurd h.symm (hword'.append_ne_cons _ _)
  | joined c' first' second' others' =>
    rw [toList_text_joined, List.cons.injEq] at h
    obtain ⟨rfl, hmembers⟩ := hfirst first' hg'.first _ _ (stops_membersAfter _ _ _)
      (stops_membersAfter _ _ _) h.2
    have hsame : c = c' := by
      rw [membersAfter_cons, membersAfter_cons] at hmembers
      exact (Connective.eq_of_separator_append hmembers).1
    subst hsame
    obtain ⟨hmembers, hsame⟩ := membersAfter_inj hothers hg'.others hmembers
    obtain ⟨rfl, rfl⟩ := List.cons.inj hmembers
    exact ⟨rfl, hsame⟩
  | nullTest negated' operand' =>
    rw [toList_text_nullTest, List.cons.injEq] at h
    obtain ⟨-, hmembers⟩ := hfirst operand' hg'.operand _ _ (stops_membersAfter _ _ _)
      (stops_testSuffix _ _) h.2
    rw [membersAfter_cons] at hmembers
    exact absurd hmembers (separator_append_ne_testSuffix _ _ _ _)

theorem readOff_nullTest {negated : Bool} {operand : Grouping String} (hoperand : operand.ReadOff) :
    (nullTest negated operand).ReadOff := by
  intro g' hg' rest rest' hrest hrest' h
  rw [toList_text_nullTest] at h
  cases g' with
  | leaf word' =>
    have hword' : IsWord word' := hg' word' (by simp [leaves, fold])
    exact absurd h.symm (hword'.append_ne_cons _ _)
  | joined c' first' second' others' =>
    rw [toList_text_joined, List.cons.injEq] at h
    obtain ⟨-, hmembers⟩ := hoperand first' hg'.first _ _ (stops_testSuffix _ _)
      (stops_membersAfter _ _ _) h.2
    rw [membersAfter_cons] at hmembers
    exact absurd hmembers.symm (separator_append_ne_testSuffix _ _ _ _)
  | nullTest negated' operand' =>
    rw [toList_text_nullTest, List.cons.injEq] at h
    obtain ⟨rfl, hsuffix⟩ := hoperand operand' hg'.operand _ _ (stops_testSuffix _ _)
      (stops_testSuffix _ _) h.2
    obtain ⟨rfl, hclosed⟩ := eq_of_testSuffix_append hsuffix
    exact ⟨rfl, (List.cons.inj hclosed).2⟩

theorem readOff (g : Grouping String) (h : g.OfWords) : g.ReadOff := by
  induction g using Grouping.induction with
  | leaf word => exact readOff_leaf (h word (by simp [leaves, fold]))
  | joined c first second rest hfirst hsecond hrest =>
    refine readOff_joined (hfirst h.first) ?_
    intro g hg
    have hwords : g.OfWords := h.others g hg
    rcases List.mem_cons.mp hg with rfl | hg
    · exact hsecond hwords
    · exact hrest g hg hwords
  | nullTest negated operand hoperand => exact readOff_nullTest (hoperand h.operand)

theorem eq_of_text_eq {g g' : Grouping String} (hg : g.OfWords) (hg' : g'.OfWords)
    (h : g.text = g'.text) : g = g' := by
  have hnil : Stops [] := by simp [Stops]
  exact (readOff g hg g' hg' [] [] hnil hnil (by rw [h])).1

/-- A condition tree that has a text has a grouping, whose text it is. -/
theorem exists_read_of_render {t : Grouping Expr} {d : Domain} {sql : String}
    (h : (t.toExpr.render.outcome d).1 = .ok sql) :
    ∃ g, (t.read.outcome d).1 = .ok g ∧ g.text = sql := by
  rw [render_toExpr, Rendering.outcome_bind] at h
  match hread : t.read.outcome d with
  | (.error e, d') => simp [hread] at h
  | (.ok g, d') =>
    rw [hread] at h
    exact ⟨g, rfl, Except.ok.inj h⟩

end Grouping

/-- Two condition trees that have the same text in a domain, in which their leaves are words, have
the same grouping there: the same operators, members and nesting, and the same texts of leaves. -/
theorem read_eq_of_render_eq (t t' : Grouping Expr) (d : Domain) (sql : String)
    (ht : (t.toExpr.render.outcome d).1 = .ok sql)
    (ht' : (t'.toExpr.render.outcome d).1 = .ok sql)
    (hwords : ∀ g, (t.read.outcome d).1 = .ok g → ∀ word ∈ g.leaves, Text.IsWord word)
    (hwords' : ∀ g, (t'.read.outcome d).1 = .ok g → ∀ word ∈ g.leaves, Text.IsWord word) :
    ∃ g, (t.read.outcome d).1 = .ok g ∧ (t'.read.outcome d).1 = .ok g ∧ g.text = sql := by
  obtain ⟨g, hg, htext⟩ := Grouping.exists_read_of_render ht
  obtain ⟨g', hg', htext'⟩ := Grouping.exists_read_of_render ht'
  have hsame : g = g' :=
    Grouping.eq_of_text_eq (hwords g hg) (hwords' g' hg') (htext.trans htext'.symm)
  exact ⟨g, hg, hsame ▸ hg', htext⟩

/-- A condition on accounts: a status that is found among others, and no date of closing. -/
def Grouping.openAccounts (status : Expr) : Grouping Expr :=
  .joined (.operator .conjunction (by decide))
    (.joined (.operator .member (by decide)) (.leaf status)
      (.joined .comma (.leaf (.fragment ⟨"'open'", none⟩)) (.leaf (.fragment ⟨"'new'", none⟩)) [])
      [])
    (.nullTest false (.leaf (.columnRef ⟨"closed", some ⟨"a"⟩⟩))) []

/-- The status is written by its column in one tree and as a fragment in the other. -/
theorem openAccounts_read_eq :
    let d := Query.accounts (.text "open") (.int64 5) |>.enter .fresh
    let t := Grouping.openAccounts (.columnRef ⟨"status", some ⟨"accounts"⟩⟩)
    let t' := Grouping.openAccounts (.fragment ⟨"a.status", none⟩)
    (t.toExpr.render.outcome d).1 = .ok "((a.status IN ('open','new')) AND (a.closed IS NULL))" ∧
      ∃ g, (t.read.outcome d).1 = .ok g ∧ (t'.read.outcome d).1 = .ok g ∧
        g.leaves = ["a.status", "'open'", "'new'", "a.closed"] := by
  intro d t t'
  have ht : (t.toExpr.render.outcome d).1 =
      .ok "((a.status IN ('open','new')) AND (a.closed IS NULL))" := rfl
  have hleaves (s : Grouping Expr) (hs : s = t ∨ s = t') (g : Grouping String)
      (hg : (s.read.outcome d).1 = .ok g) :
      g.leaves = ["a.status", "'open'", "'new'", "a.closed"] := by
    rcases hs with rfl | rfl <;> cases hg <;> rfl
  have hwords : ∀ word ∈ ["a.status", "'open'", "'new'", "a.closed"], Text.IsWord word := by decide
  obtain ⟨g, hg, hg', -⟩ := read_eq_of_render_eq t t' d _ ht rfl
    (fun g hg ↦ hleaves t (.inl rfl) g hg ▸ hwords) (fun g hg ↦ hleaves t' (.inr rfl) g hg ▸ hwords)
  exact ⟨ht, g, hg, hg', hleaves t (.inl rfl) g hg⟩

end ScopedSelect
