import TrackedRecord.Proofs.Source.Members

/-!
# Lines of generated source

Of the lines of a text, those that begin as the definition of a type, a constant or a method, or as a call on the
record, are read as the name that follows and the rest of the line. Texts that end with a line are read one after
the other.
-/

namespace TrackedRecord

/-! ### Words and lines -/

namespace Text

/-- Whether `c` may stand in a name. -/
def isNamePart (c : Char) : Bool := Vocabulary.isNameStart c || c.isDigit

def Word (s : String) : Prop := ∀ c ∈ s.toList, isNamePart c = true

def OneLine (s : String) : Prop := '\n' ∉ s.toList

theorem Word.oneLine {s : String} (word : Word s) : OneLine s := by
  intro member
  have part := word '\n' member
  exact absurd part (by decide)

theorem Word.append {s t : String} (first : Word s) (second : Word t) : Word (s ++ t) := by
  intro c member
  rw [String.toList_append, List.mem_append] at member
  exact member.elim (first c) (second c)

theorem word_repr (n : Nat) : Word (toString n) := by
  intro c member
  have digit : c.isDigit = true :=
    Nat.isDigit_of_mem_toDigits (show 0 < 10 by decide) (Nat.le_refl 10) (by simpa using member)
  rw [isNamePart, digit, Bool.or_true]

theorem word_of_isName {s : String} (name : Vocabulary.isName s = true) : Word s := by
  intro c member
  unfold Vocabulary.isName at name
  split at name
  · cases name
  · rename_i first rest chars
    rw [Bool.and_eq_true, List.all_eq_true] at name
    rw [chars] at member
    rcases List.mem_cons.mp member with rfl | later
    · rw [isNamePart, name.1, Bool.true_or]
    · exact name.2 c later

@[simp] theorem oneLine_append {s t : String} : OneLine (s ++ t) ↔ OneLine s ∧ OneLine t := by
  rw [OneLine, String.toList_append, List.mem_append, not_or]
  rfl

theorem oneLine_intercalate {separator : String} {parts : List String} (between : OneLine separator)
    (each : ∀ part ∈ parts, OneLine part) : OneLine (separator.intercalate parts) := by
  induction parts with
  | nil => exact List.not_mem_nil
  | cons part rest ih =>
    obtain ⟨first, others⟩ := List.forall_mem_cons.mp each
    cases rest with
    | nil => simpa using first
    | cons next rest =>
      rw [String.intercalate_cons_cons]
      exact oneLine_append.mpr ⟨oneLine_append.mpr ⟨first, between⟩, ih others⟩

theorem newline_not_mem_toDigits {base : Nat} (large : 1 < base) (n : Nat) : '\n' ∉ Nat.toDigits base n := by
  have other (d : Nat) : '\n' ≠ Nat.digitChar d := by
    fun_cases Nat.digitChar d <;> decide
  induction n using Nat.strongRecOn with
  | ind n ih =>
    by_cases small : n < base
    · rw [Nat.toDigits_of_lt_base small, List.mem_singleton]
      exact other n
    · have quotient : 0 < n / base := Nat.div_pos (Nat.not_lt.mp small) (by omega)
      rw [← Nat.div_add_mod n base, ← Nat.toDigits_append_toDigits large quotient (Nat.mod_lt n (by omega)),
        List.mem_append, Nat.toDigits_of_lt_base (Nat.mod_lt n (by omega)), List.mem_singleton]
      exact not_or.mpr ⟨ih _ (Nat.div_lt_self (by omega) large), other _⟩

theorem newline_not_mem_quoteChar (c : Char) : '\n' ∉ quoteChar c := by
  unfold quoteChar
  repeat' split
  any_goals decide
  · rename_i other _ _ _ _
    rw [List.mem_singleton]
    exact fun same => other same.symm
  · have digits := newline_not_mem_toDigits (show 1 < 16 by decide) c.toNat
    simp [digits]

/-- A quoted text stands on one line. -/
theorem oneLine_quoted (s : String) : OneLine (quoted s) := by
  rw [OneLine, quoted, String.toList_ofList]
  simp only [List.mem_append, List.mem_cons, List.mem_flatMap, List.not_mem_nil, or_false, not_or]
  refine ⟨⟨by decide, ?_⟩, by decide⟩
  rintro ⟨c, _, member⟩
  exact newline_not_mem_quoteChar c member

theorem isNamePart_case {c : Char} (ascii : c.toNat < 0x80) (part : isNamePart c = true) :
    isNamePart c.toUpper = true ∧ isNamePart c.toLower = true := by
  have each : ∀ n : Fin 0x80, isNamePart (Char.ofNat n) = true →
      isNamePart (Char.ofNat n).toUpper = true ∧ isNamePart (Char.ofNat n).toLower = true := by decide
  have one := each ⟨c.toNat, ascii⟩
  rw [Char.ofNat_toNat] at one
  exact one part

/-- The constant and the suffix for a name are words. -/
theorem word_case {name : String} (valid : Vocabulary.isName name = true) :
    Word (constantName name) ∧ Word (methodSuffix name) := by
  have ascii := splitCamel_ascii (Vocabulary.isName_iff.mp valid).ascii false
  have parts := splitCamel_forall (show isNamePart '_' = true by decide) (word_of_isName valid) false
  rw [constantName, methodSuffix, upper, lower, String.toList_ofList, upper_ascii ascii, lower_ascii ascii]
  constructor
  · intro c member
    rw [String.toList_ofList] at member
    obtain ⟨d, inside, rfl⟩ := List.mem_map.mp member
    exact (isNamePart_case (ascii d inside) (parts d inside)).1
  · intro c member
    rw [String.toList_ofList] at member
    obtain ⟨d, inside, rfl⟩ := List.mem_map.mp member
    exact (isNamePart_case (ascii d inside) (parts d inside)).2

end Text

namespace Source

open Text (Word OneLine isNamePart oneLine_append oneLine_quoted)

theorem word_uniqueNames {used bases : List String} (words : ∀ base ∈ bases, Word base) :
    ∀ name ∈ uniqueNames used bases, Word name := by
  induction bases generalizing used with
  | nil => exact fun _ member => nomatch member
  | cons base rest ih =>
    obtain ⟨first, others⟩ := List.forall_mem_cons.mp words
    have chosen := uniqueName_chosen base used
    have word : Word (uniqueName base used) := by
      by_cases taken : base ∈ used
      · obtain ⟨n, _, _, name, _⟩ := chosen.least taken
        rw [name]
        exact first.append (Text.word_repr n)
      · rwa [chosen.bare taken]
    exact List.forall_mem_cons.mpr ⟨word, ih others⟩

/-! ### What lines say -/

/-- How the lines begin that are read. -/
inductive Keyword where
  | type
  | constant
  | method
  | call
  deriving DecidableEq, Repr

def Keyword.text : Keyword → String
  | .type => "pub struct "
  | .constant => "    pub const "
  | .method => "    pub fn "
  | .call => "        self.record."

/-- A name after a keyword, and what follows it on the line. -/
structure Item where
  keyword : Keyword
  name : String
  rest : String
  deriving DecidableEq, Repr

namespace Item

def line (item : Item) : String := item.keyword.text ++ item.name ++ item.rest

def ofLine? (line : List Char) : Option Item := do
  let keyword ← [Keyword.type, .constant, .method, .call].find? fun keyword =>
    keyword.text.toList.isPrefixOf line
  let behind := line.drop keyword.text.toList.length
  return ⟨keyword, String.ofList (behind.takeWhile isNamePart), String.ofList (behind.dropWhile isNamePart)⟩

/-- The items of a text in the order of its lines. -/
def all (text : String) : List Item := (text.toList.splitOn '\n').filterMap ofLine?

/-- The name is a word that ends where the rest begins. -/
structure Legible (item : Item) : Prop where
  word : Word item.name
  ends : ∀ c ∈ item.rest.toList.head?, isNamePart c = false

theorem ofLine?_line {item : Item} (legible : item.Legible) : ofLine? item.line.toList = some item := by
  obtain ⟨keyword, name, rest⟩ := item
  obtain ⟨word, ends⟩ := legible
  dsimp only at word ends
  have behind : rest.toList.takeWhile isNamePart = [] ∧ rest.toList.dropWhile isNamePart = rest.toList := by
    cases chars : rest.toList with
    | nil => exact ⟨rfl, rfl⟩
    | cons c cs =>
      have stop := ends c (by rw [chars]; rfl)
      exact ⟨List.takeWhile_cons_of_neg (by simp [stop]), List.dropWhile_cons_of_neg (by simp [stop])⟩
  have found : [Keyword.type, .constant, .method, .call].find? (fun other =>
      other.text.toList.isPrefixOf (Item.line ⟨keyword, name, rest⟩).toList) = some keyword := by
    cases keyword <;> simp [Item.line, Keyword.text, List.isPrefixOf]
  rw [ofLine?, found]
  simp only [Item.line, String.toList_append, List.append_assoc, Option.bind_eq_bind, Option.bind_some,
    List.drop_left, List.takeWhile_append_of_pos word, List.dropWhile_append_of_pos word, behind, List.append_nil,
    String.ofList_toList]
  rfl

theorem ofLine?_other {c : Char} {cs : List Char} (other : c ≠ 'p' ∧ c ≠ ' ') : ofLine? (c :: cs) = none := by
  simp [ofLine?, Keyword.text, List.isPrefixOf, other.1.symm, other.2.symm]

end Item

/-- The text is a line that is read as the item, or that is not read. -/
structure Line (text : String) (item? : Option Item) : Prop where
  single : OneLine text
  read : Item.ofLine? text.toList = item?

theorem Line.passed {text : String} (single : OneLine text)
    (start : ∀ c ∈ text.toList.head?, c ≠ 'p' ∧ c ≠ ' ') : Line text none := by
  refine ⟨single, ?_⟩
  cases chars : text.toList with
  | nil => rfl
  | cons c cs => exact Item.ofLine?_other (start c (by rw [chars]; rfl))

theorem Line.item {keyword : Keyword} {name rest : String} (word : Word name) (single : OneLine rest)
    (ends : ∀ c ∈ rest.toList.head?, isNamePart c = false) :
    Line (keyword.text ++ name ++ rest) (some ⟨keyword, name, rest⟩) where
  single := by
    have start : OneLine keyword.text := by cases keyword <;> simp [OneLine, Keyword.text]
    exact oneLine_append.mpr ⟨oneLine_append.mpr ⟨start, word.oneLine⟩, single⟩
  read := by
    have legible : Item.Legible ⟨keyword, name, rest⟩ := ⟨word, ends⟩
    have read := Item.ofLine?_line legible
    unfold Item.line at read
    exact read

/-- The text is read as the items, whatever follows it. -/
def Yields (text : String) (items : List Item) : Prop := ∀ rest, Item.all (text ++ rest) = items ++ Item.all rest

namespace Yields

variable {text more : String} {items others : List Item}

theorem all (yields : Yields text items) : Item.all text = items := by
  have whole := yields ""
  rwa [String.append_empty, show Item.all "" = [] from rfl, List.append_nil] at whole

theorem nil : Yields "" [] := fun rest => by rw [String.empty_append, List.nil_append]

theorem append (first : Yields text items) (second : Yields more others) : Yields (text ++ more) (items ++ others) := by
  intro rest
  rw [String.append_assoc, first, second, List.append_assoc]

/-- A text of which nothing is read. -/
theorem behind (first : Yields text items) (second : Yields more []) : Yields (text ++ more) items := by
  rw [← List.append_nil items]
  exact first.append second

theorem join {α : Type} {texts : List α} {textOf : α → String} {itemsOf : α → List Item}
    (each : ∀ a ∈ texts, Yields (textOf a) (itemsOf a)) :
    Yields (String.join (texts.map textOf)) (texts.flatMap itemsOf) := by
  induction texts with
  | nil => exact nil
  | cons a rest ih =>
    obtain ⟨first, others⟩ := List.forall_mem_cons.mp each
    rw [List.map_cons, String.join_cons, List.flatMap_cons]
    exact first.append (ih others)

theorem line {item? : Option Item} (line : Line text item?) : Yields (text ++ "\n") item?.toList := by
  obtain ⟨single, rfl⟩ := line
  intro rest
  have broken : (text ++ "\n" ++ rest).toList.splitOn '\n' = text.toList :: rest.toList.splitOn '\n' := by
    have apart : ∀ c ∈ text.toList, (c == '\n') = false := by
      intro c member
      rw [beq_eq_false_iff_ne]
      exact fun same => single (same ▸ member)
    rw [String.toList_append, String.toList_append, List.append_assoc]
    exact List.splitOnP_append_cons_of_forall_mem apart '\n' rfl _
  rw [Item.all, broken, List.filterMap_cons, Item.all]
  cases Item.ofLine? text.toList <;> rfl

theorem noLines : Yields (lines []) [] := nil

/-- A line before others. -/
theorem cons {item? : Option Item} {texts : List String} (first : Line text item?)
    (later : Yields (lines texts) items) :
    Yields (lines (text :: texts)) (item?.toList ++ items) := by
  rw [lines, List.map_cons, String.join_cons]
  exact (line first).append later

theorem ofLines {texts : List String} (single : ∀ text ∈ texts, OneLine text)
    (read : texts.filterMap (fun text => Item.ofLine? text.toList) = items) : Yields (lines texts) items := by
  subst read
  induction texts with
  | nil => exact noLines
  | cons text rest ih =>
    obtain ⟨first, others⟩ := List.forall_mem_cons.mp single
    have whole := cons ⟨first, rfl⟩ (ih others)
    rw [List.filterMap_cons]
    cases read : Item.ofLine? text.toList <;>
      · rw [read] at whole
        exact whole

theorem passed {texts : List String} (each : ∀ text ∈ texts, Line text none) : Yields (lines texts) [] :=
  ofLines (fun text member => (each text member).single)
    (List.filterMap_eq_nil_iff.mpr fun text member => (each text member).read)

theorem each {α : Type} {all : List α} {textOf : α → String} {itemOf : α → Item}
    (shown : ∀ a ∈ all, Line (textOf a) (some (itemOf a))) :
    Yields (lines (all.map textOf)) (all.map itemOf) := by
  refine ofLines (List.forall_mem_map.mpr fun a member => (shown a member).single) ?_
  rw [List.filterMap_map, ← List.filterMap_eq_map]
  exact List.filterMap_congr fun a member => (shown a member).read

end Yields

theorem lines_append (texts more : List String) : lines (texts ++ more) = lines texts ++ lines more := by
  rw [lines, List.map_append, String.join_append]
  rfl

end Source

end TrackedRecord
