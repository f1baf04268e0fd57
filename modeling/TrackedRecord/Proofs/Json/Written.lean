import TrackedRecord.Proofs.Json.Number

/-!
# Documents that are written

A document that is written with indentation is read back from its text: every escape gives its character, every
number its bits, and the white space between the parts is passed over.
-/

namespace TrackedRecord.Json

namespace Reader

variable {strict : Strictness} {cs rest : List Char}

/-! ### Strings -/

theorem hexNumber_control {n : Nat} (small : n < 0x20) (rest : List Char) :
    hexNumber 4 0 (Text.hexDigits 4 n ++ rest) = .ok (n, rest) := by
  have shown : ∀ n < 0x20, Text.hexDigits 4 n = ['0', '0', Nat.digitChar (n / 16), Nat.digitChar (n % 16)] := by decide
  have digit : ∀ d < 16, Text.hexValue? (Nat.digitChar d) = some d := by decide
  have zero : Text.hexValue? '0' = some 0 := by decide
  rw [shown n small, List.cons_append, List.cons_append, List.cons_append, List.cons_append, List.nil_append]
  simp only [hexNumber, zero, digit _ (show n / 16 < 16 by omega), digit _ (show n % 16 < 16 by omega)]
  rw [show ((0 * 16 + 0) * 16 + 0) * 16 + n / 16 = n / 16 by omega, show n / 16 * 16 + n % 16 = n by omega]

/-- A character stands as itself or as an escape that is read as the character. -/
theorem escapeChar_reads (strict : Strictness) (c : Char) :
    (escapeChar c = [c] ∧ c ≠ '"' ∧ c ≠ '\\' ∧ ¬c.toNat < 0x20) ∨
      ∃ code, escapeChar c = '\\' :: code ∧ ∀ rest, escape strict (code ++ rest) = .ok (c, rest) := by
  have known {n : Nat} (code : c.toNat = n) : Char.ofNat n = c := code ▸ Char.ofNat_toNat c
  unfold escapeChar
  split
  · rename_i quote
    exact .inr ⟨_, rfl, fun rest => by rw [quote]; rfl⟩
  split
  · rename_i backslash
    exact .inr ⟨_, rfl, fun rest => by rw [backslash]; rfl⟩
  split
  · rename_i backspace
    exact .inr ⟨_, rfl, fun rest => by rw [← known backspace]; rfl⟩
  split
  · rename_i feed
    exact .inr ⟨_, rfl, fun rest => by rw [← known feed]; rfl⟩
  split
  · rename_i line
    exact .inr ⟨_, rfl, fun rest => by rw [line]; rfl⟩
  split
  · rename_i back
    exact .inr ⟨_, rfl, fun rest => by rw [back]; rfl⟩
  split
  · rename_i tab
    exact .inr ⟨_, rfl, fun rest => by rw [tab]; rfl⟩
  split
  · rename_i control
    refine .inr ⟨_, rfl, fun rest => ?_⟩
    have read := hexNumber_control control rest
    change unicodeEscape strict (Text.hexDigits 4 c.toNat ++ rest) = _
    rw [unicodeEscape, Result.bind_of_ok read]
    dsimp only
    rw [if_pos (.inl (by omega)), Char.ofNat_toNat]
    rfl
  · exact .inl ⟨rfl, ‹_›, ‹_›, ‹_›⟩

theorem stringRest_reads {fuel : Nat} {text before : List Char} (enough : text.length < fuel) :
    stringRest strict fuel before (text.flatMap escapeChar ++ '"' :: rest) =
      .ok (String.ofList (before.reverse ++ text), rest) := by
  induction text generalizing fuel before with
  | nil =>
    obtain ⟨fuel, rfl⟩ : ∃ n, fuel = n + 1 := ⟨fuel - 1, by simp at enough; omega⟩
    rw [List.flatMap_nil, List.nil_append, List.append_nil, stringRest, if_pos rfl]
  | cons c text ih =>
    rw [List.length_cons] at enough
    obtain ⟨fuel, rfl⟩ : ∃ n, fuel = n + 1 := ⟨fuel - 1, by omega⟩
    have next : before.reverse ++ c :: text = (c :: before).reverse ++ text := by simp
    have later : stringRest strict fuel (c :: before) (text.flatMap escapeChar ++ '"' :: rest) = _ := ih (by omega)
    rw [List.flatMap_cons, List.append_assoc, next, ← later]
    rcases escapeChar_reads strict c with ⟨same, quote, backslash, control⟩ | ⟨code, escaped, reads⟩
    · rw [same, List.singleton_append, stringRest, if_neg quote, if_neg backslash, if_neg control]
    · rw [escaped, List.cons_append, stringRest, if_neg (by decide), if_pos rfl, reads]

theorem string_reads {fuel : Nat} {s : String} (enough : s.toList.length < fuel) :
    string strict fuel (s.toList.flatMap escapeChar ++ '"' :: rest) = .ok (s, rest) := by
  rw [string, stringRest_reads enough, List.reverse_nil, List.nil_append, String.ofList_toList]

theorem length_le_escaped (text : List Char) : text.length ≤ (text.flatMap escapeChar).length := by
  induction text with
  | nil => exact Nat.le_refl 0
  | cons c text ih =>
    have one : 1 ≤ (escapeChar c).length := by
      rcases escapeChar_reads ⟨0, true, true, true⟩ c with ⟨same, _⟩ | ⟨code, escaped, _⟩
      · rw [same]
        exact Nat.le_refl 1
      · rw [escaped]
        exact Nat.succ_le_succ (Nat.zero_le _)
    rw [List.flatMap_cons, List.length_append, List.length_cons]
    omega

/-! ### White space -/

/-- White space of which nothing is left. -/
def Blank (cs : List Char) : Prop := ∀ c ∈ cs, isSpace c = true

theorem skipSpace_append {gap : List Char} (blank : Blank gap) : skipSpace (gap ++ cs) = skipSpace cs :=
  List.dropWhile_append_of_pos blank

theorem skipSpace_cons {c : Char} (solid : isSpace c = false) : skipSpace (c :: cs) = c :: cs :=
  List.dropWhile_cons_of_neg (by simp [solid])

theorem closes_cons {c : Char} (other : c.isDigit = false ∧ c ≠ '.' ∧ c ≠ 'e' ∧ c ≠ 'E') : Closes (c :: cs) := by
  rintro _ ⟨⟩
  exact other

/-- What is read as a number starts as one. -/
theorem number_head {found : Found Number} (read : number strict cs = .ok found) :
    ∃ c tail, cs = c :: tail ∧ (c = '-' ∨ c.isDigit = true) := by
  obtain ⟨_, first, _⟩ := Result.bind_ok read
  obtain ⟨_, shown, _⟩ := Result.bind_ok first
  split at shown
  · exact ⟨'-', _, rfl, .inl rfl⟩
  · unfold digits at shown
    dsimp only at shown
    rw [List.span_eq_takeWhile_dropWhile] at shown
    cases cs with
    | nil => cases shown
    | cons c tail =>
      refine ⟨c, tail, rfl, .inr ?_⟩
      by_contra other
      rw [List.takeWhile_cons_of_neg other] at shown
      exact unexpected_ne_ok shown

end Reader

open Reader

/-! ### Layout of documents -/

def gap (level : Nat) : List Char := '\n' :: List.replicate (2 * level) ' '

theorem gap_blank (level : Nat) : Blank (gap level) := by
  refine List.forall_mem_cons.mpr ⟨rfl, fun c member => ?_⟩
  rw [(List.mem_replicate.mp member).2]
  rfl

theorem indentedItems_eq (level : Nat) (items : List Json) :
    indentedItems level items = items.map (indentedFrom level) := by
  induction items with
  | nil => rw [indentedItems, List.map_nil]
  | cons item rest ih => rw [indentedItems, ih, List.map_cons]

theorem indentedMembers_eq (level : Nat) (members : List (String × Json)) :
    indentedMembers level members = members.map fun member => quote member.1 ++ ": " ++ indentedFrom level member.2 := by
  induction members with
  | nil => rw [indentedMembers, List.map_nil]
  | cons member rest ih => rw [indentedMembers, ih, List.map_cons]

/-- The texts of items or members with a comma and white space between. -/
def listed (level : Nat) (texts : List (List Char)) : List Char := List.intercalate (',' :: gap level) texts

theorem listed_singleton (level : Nat) (text : List Char) : listed level [text] = text := List.intercalate_singleton

theorem listed_cons (level : Nat) (text next : List Char) (others : List (List Char)) :
    listed level (text :: next :: others) = text ++ ',' :: (gap level ++ listed level (next :: others)) := by
  rw [listed, List.intercalate_cons_cons, listed]
  simp

theorem listed_front (level : Nat) (text : List Char) (others : List (List Char)) :
    ∃ tail, listed level (text :: others) = text ++ tail := by
  cases others with
  | nil => exact ⟨[], by rw [listed_singleton, List.append_nil]⟩
  | cons next others => exact ⟨_, listed_cons level text next others⟩

theorem block_toList (level : Nat) (opening closing : String) {lines : List String} (present : lines ≠ []) :
    (block level opening lines closing).toList = opening.toList ++ gap (level + 1) ++
      listed (level + 1) (lines.map String.toList) ++ gap level ++ closing.toList := by
  unfold block
  rw [if_neg (by simpa using present)]
  simp [String.toList_intercalate, gap, indent, listed]

/-! ### Values -/

/-- The opening brackets of a text, which bound how deep it nests. -/
def opens (text : List Char) : Nat := text.countP fun c => c = '[' || c = '\x7b'

theorem opens_append (a b : List Char) : opens (a ++ b) = opens a + opens b := List.countP_append

theorem opens_cons (c : Char) (text : List Char) :
    opens (c :: text) = opens text + if c = '[' ∨ c = '\x7b' then 1 else 0 := by
  rw [opens, List.countP_cons, opens]
  simp

theorem opens_le (text : List Char) : opens text ≤ text.length := List.countP_le_length

/-- The text is that of the document, on a line of any level, whatever goes on after it. -/
structure Writes (strict : Strictness) (json : Json) (text : List Char) : Prop where
  head : ∃ c tail, text = c :: tail ∧ isSpace c = false ∧ c ≠ ']' ∧ c ≠ '\x7d'
  reads {fuel nesting : Nat} {before rest : List Char} (blank : Blank before) (closes : Closes rest)
    (enough : text.length ≤ fuel) (shallow : opens text ≤ nesting) :
    value strict fuel nesting (before ++ (text ++ rest)) = .ok (json, rest)

variable {strict : Strictness} {rest : List Char} {level : Nat}

/-- Only the text itself has to be read: white space is passed over, and there is fuel for the first character. -/
theorem Writes.intro {json : Json} {text : List Char}
    (head : ∃ c tail, text = c :: tail ∧ isSpace c = false ∧ c ≠ ']' ∧ c ≠ '\x7d')
    (reads : ∀ {fuel nesting : Nat} {rest : List Char}, Closes rest → text.length ≤ fuel + 1 → opens text ≤ nesting →
      value strict (fuel + 1) nesting (text ++ rest) = .ok (json, rest)) : Writes strict json text where
  head := head
  reads := by
    intro fuel nesting before rest blank closes enough shallow
    obtain ⟨c, tail, same, _⟩ := head
    have present : 0 < text.length := by
      rw [same]
      exact Nat.succ_pos _
    obtain ⟨fuel, rfl⟩ : ∃ n, fuel = n + 1 := ⟨fuel - 1, by omega⟩
    rw [← reads closes enough shallow, value, value, skipSpace_append blank]

theorem writes_null : Writes strict .null "null".toList := .intro ⟨'n', _, rfl, by decide⟩ fun _ _ _ => rfl

theorem writes_bool (b : Bool) : Writes strict (.bool b) (if b then "true" else "false").toList := by
  refine .intro ?_ fun _ _ _ => ?_
  · cases b <;> exact ⟨_, _, rfl, by decide⟩
  · cases b <;> rfl

theorem quote_toList (s : String) : (quote s).toList = '"' :: (s.toList.flatMap escapeChar ++ ['"']) := by simp [quote]

theorem writes_string (s : String) : Writes strict (.string s) (quote s).toList := by
  rw [quote_toList]
  refine .intro ⟨_, _, rfl, by decide⟩ fun {fuel _ rest} closes enough shallow => ?_
  have short := length_le_escaped s.toList
  rw [List.length_cons, List.length_append, List.length_singleton] at enough
  have read : Reader.string strict fuel (s.toList.flatMap escapeChar ++ '"' :: rest) = .ok (s, rest) :=
    string_reads (by omega)
  rw [value, List.cons_append, List.append_assoc, List.singleton_append, skipSpace_cons (by decide)]
  dsimp only
  rw [if_neg (by decide), if_neg (by decide), if_neg (by decide), if_pos rfl, Result.bind_of_ok read]
  rfl

theorem digit_solid {c : Char} (digit : c.isDigit = true) :
    isSpace c = false ∧ c ≠ ']' ∧ c ≠ '\x7d' ∧ c ≠ 'n' ∧ c ≠ 't' ∧ c ≠ 'f' ∧ c ≠ '"' ∧ c ≠ '[' ∧ c ≠ '\x7b' := by
  have other {d : Char} (none : d.isDigit = false) : c ≠ d := by
    rintro rfl
    exact Bool.false_ne_true (none.symm.trans digit)
  refine ⟨?_, other rfl, other rfl, other rfl, other rfl, other rfl, other rfl, other rfl, other rfl⟩
  simp [isSpace, other (d := ' ') rfl, other (d := '\t') rfl, other (d := '\n') rfl, other (d := '\r') rfl]

theorem writes_number {n : Number} (held : n.Held) : Writes strict (.number n) n.text.toList := by
  have alone : Reader.number strict (n.text.toList ++ []) = .ok (n, []) := held.reads nofun
  obtain ⟨c, tail, same, first⟩ := number_head alone
  rw [List.append_nil] at same
  have solid := first.elim (fun minus => minus ▸ by decide) digit_solid
  refine .intro ⟨c, tail, same, solid.1, solid.2.1, solid.2.2.1⟩ fun {_ _ rest} closes _ _ => ?_
  have read : Reader.number strict (n.text.toList ++ rest) = .ok (n, rest) := held.reads closes
  rw [same, List.cons_append] at read ⊢
  rw [value, skipSpace_cons solid.1]
  dsimp only
  obtain ⟨_, _, _, null, yes, no, text, array, object⟩ := solid
  rw [if_neg null, if_neg yes, if_neg no, if_neg text, if_neg array, if_neg object, if_pos first, Result.bind_of_ok read]
  rfl

/-! ### Parts in brackets -/

theorem closes_blank {close : List Char} (ends : Blank close) {cs : List Char} (closes : Closes cs) :
    Closes (close ++ cs) := by
  cases close with
  | nil => exact closes
  | cons c close =>
    refine closes_cons ?_
    have space := ends c List.mem_cons_self
    simp only [isSpace, Bool.or_eq_true, decide_eq_true_eq] at space
    rcases space with ((rfl | rfl) | rfl) | rfl <;> decide

/-- What reads the parts before a bracket, the latest first. -/
abbrev PartReader (α : Type) := Nat → Nat → List α → List Char → Except ReadError (Found (List α))

variable {α : Type} {read : PartReader α} {closing : Char}

/-- The text of a part is read with the comma after it, and with the bracket after the last one. -/
structure Takes (read : PartReader α) (closing : Char) (part : α) (text : List Char) : Prop where
  comma {fuel nesting : Nat} {before : List α} {space after : List Char} (blank : Blank space)
    (enough : text.length ≤ fuel) (shallow : opens text ≤ nesting) :
    read (fuel + 1) nesting before (space ++ (text ++ ',' :: after)) = read fuel nesting (part :: before) after
  last {fuel nesting : Nat} {before : List α} {space close rest : List Char} (blank : Blank space) (ends : Blank close)
    (enough : text.length ≤ fuel) (shallow : opens text ≤ nesting) :
    read (fuel + 1) nesting before (space ++ (text ++ (close ++ closing :: rest))) = .ok ((part :: before).reverse, rest)

theorem listed_reads {textOf : α → List Char} {part : α} {parts : List α}
    (takes : ∀ other ∈ part :: parts, Takes read closing other (textOf other)) {close : List Char} (ends : Blank close)
    {fuel nesting : Nat} {before : List α} {space : List Char} (blank : Blank space)
    (enough : (listed level ((part :: parts).map textOf)).length < fuel)
    (shallow : opens (listed level ((part :: parts).map textOf)) ≤ nesting) :
    read fuel nesting before (space ++ (listed level ((part :: parts).map textOf) ++ (close ++ closing :: rest))) =
      .ok (before.reverse ++ part :: parts, rest) := by
  obtain ⟨fuel, rfl⟩ : ∃ n, fuel = n + 1 := ⟨fuel - 1, by omega⟩
  induction parts generalizing part fuel before space with
  | nil =>
    rw [List.map_singleton, listed_singleton] at enough shallow ⊢
    rw [(takes part List.mem_cons_self).last blank ends (by omega) shallow, List.reverse_cons]
  | cons next parts ih =>
    rw [List.map_cons, List.map_cons, listed_cons] at enough shallow ⊢
    rw [← List.map_cons, List.length_append, List.length_cons, List.length_append] at enough
    rw [← List.map_cons, opens_append, opens_cons, opens_append] at shallow
    obtain ⟨first, others⟩ := List.forall_mem_cons.mp takes
    obtain ⟨fuel, rfl⟩ : ∃ n, fuel = n + 1 := ⟨fuel - 1, by omega⟩
    have later : read (fuel + 1) nesting (part :: before)
        (gap level ++ (listed level ((next :: parts).map textOf) ++ (close ++ closing :: rest))) =
          .ok ((part :: before).reverse ++ next :: parts, rest) :=
      ih others (gap_blank level) (by omega) fuel (by omega)
    rw [List.reverse_cons, List.append_assoc] at later
    rw [List.append_assoc, List.cons_append, first.comma blank (by omega) (by omega), List.append_assoc]
    exact later

/-- Brackets are read with the parts between them if they are read with parts that do not start with a bracket. -/
theorem writes_listed {json : Json} {opening : Char} (bracket : opening = '[' ∨ opening = '\x7b')
    {textOf : α → List Char} {part : α} {parts : List α}
    (head : ∃ c tail, textOf part = c :: tail ∧ isSpace c = false ∧ c ≠ closing)
    (takes : ∀ other ∈ part :: parts, Takes read closing other (textOf other))
    (reads : ∀ {fuel nesting : Nat} {cs rest : List Char} {c : Char} {tail : List Char}, skipSpace cs = c :: tail →
      c ≠ closing → read fuel nesting [] cs = .ok (part :: parts, rest) →
      value strict (fuel + 1) (nesting + 1) (opening :: cs) = .ok (json, rest)) :
    Writes strict json (opening ::
      (gap (level + 1) ++ (listed (level + 1) ((part :: parts).map textOf) ++ (gap level ++ [closing])))) := by
  have solid : isSpace opening = false ∧ opening ≠ ']' ∧ opening ≠ '\x7d' := by
    rcases bracket with rfl | rfl <;> decide
  refine .intro ⟨opening, _, rfl, solid⟩ fun {fuel nesting rest} closes enough shallow => ?_
  rw [List.length_cons, List.length_append, List.length_append] at enough
  rw [opens_cons, if_pos bracket, opens_append, opens_append] at shallow
  obtain ⟨nesting, rfl⟩ : ∃ n, nesting = n + 1 := ⟨nesting - 1, by omega⟩
  obtain ⟨c, tail, same, space, other⟩ := head
  obtain ⟨front, starts⟩ : ∃ front, listed (level + 1) ((part :: parts).map textOf) = textOf part ++ front :=
    listed_front _ _ _
  have first : skipSpace (gap (level + 1) ++
      (listed (level + 1) ((part :: parts).map textOf) ++ (gap level ++ closing :: rest))) =
        c :: (tail ++ front ++ (gap level ++ closing :: rest)) := by
    rw [skipSpace_append (gap_blank _), starts, same]
    exact skipSpace_cons space
  have positive : 0 < (gap level ++ [closing]).length := by simp
  have found : read fuel nesting [] (gap (level + 1) ++
      (listed (level + 1) ((part :: parts).map textOf) ++ (gap level ++ closing :: rest))) = .ok (part :: parts, rest) :=
    listed_reads takes (gap_blank level) (gap_blank (level + 1)) (by omega) (by omega)
  simpa using reads first other found

/-! ### Arrays and objects -/

theorem item_takes {item : Json} {text : List Char} (writes : Writes strict item text) :
    Takes (Reader.items strict) ']' item text where
  comma blank enough shallow := by
    rw [Reader.items, Result.bind_of_ok (writes.reads blank (closes_cons (by decide)) enough shallow)]
    dsimp only
    rw [skipSpace_cons (by decide)]
    rfl
  last {_ _ _ _ close rest} blank ends enough shallow := by
    have closes : Closes (close ++ ']' :: rest) := closes_blank ends (closes_cons (by decide))
    rw [Reader.items, Result.bind_of_ok (writes.reads blank closes enough shallow)]
    dsimp only
    rw [skipSpace_append ends, skipSpace_cons (by decide)]
    rfl

theorem value_array {fuel nesting : Nat} {cs : List Char} {found : List Json} {c : Char} {tail : List Char}
    (first : skipSpace cs = c :: tail) (present : c ≠ ']')
    (read : Reader.items strict fuel nesting [] cs = .ok (found, rest)) :
    value strict (fuel + 1) (nesting + 1) ('[' :: cs) = .ok (.array found, rest) := by
  rw [value, skipSpace_cons (by decide)]
  dsimp only
  rw [if_neg (by decide), if_neg (by decide), if_neg (by decide), if_neg (by decide), if_pos rfl,
    if_neg (Nat.succ_ne_zero nesting), first]
  split
  · rename_i closing
    exact absurd (List.cons.inj closing).1 present
  · rw [Nat.add_sub_cancel, Result.bind_of_ok read]
    rfl

theorem writes_array {items : List Json} {render : Json → String}
    (writes : ∀ item ∈ items, Writes strict item (render item).toList) :
    Writes strict (.array items) (block level "[" (items.map render) "]").toList := by
  cases items with
  | nil =>
    have text : (block level "[" [] "]").toList = ['[', ']'] := by simp [block]
    rw [List.map_nil, text]
    refine .intro ⟨_, _, rfl, by decide⟩ fun {_ nesting _} _ _ shallow => ?_
    obtain ⟨nesting, rfl⟩ : ∃ n, nesting = n + 1 := ⟨nesting - 1, by have : 1 ≤ nesting := shallow; omega⟩
    rfl
  | cons item items =>
    rw [block_toList level _ _ (by simp), List.map_map]
    obtain ⟨c, tail, same, solid, bracket, _⟩ := (writes item List.mem_cons_self).head
    have takes : ∀ other ∈ item :: items, Takes (Reader.items strict) ']' other ((String.toList ∘ render) other) :=
      fun other member => item_takes (writes other member)
    have written : Writes strict (.array (item :: items)) ('[' :: (gap (level + 1) ++
        (listed (level + 1) ((item :: items).map (String.toList ∘ render)) ++ (gap level ++ [']'])))) :=
      writes_listed (.inl rfl) ⟨c, tail, same, solid, bracket⟩ takes value_array
    simpa using written

/-- The text of a member of an object. -/
def line (textOf : Json → List Char) (member : String × Json) : List Char :=
  (quote member.1).toList ++ ':' :: ' ' :: textOf member.2

theorem member_reads {textOf : Json → List Char} {member : String × Json}
    (writes : Writes strict member.2 (textOf member.2)) {fuel nesting : Nat} {before : List (String × Json)}
    {space cs : List Char} (blank : Blank space) (closes : Closes cs) (enough : (line textOf member).length ≤ fuel)
    (shallow : opens (line textOf member) ≤ nesting) :
    Reader.members strict (fuel + 1) nesting before (space ++ (line textOf member ++ cs)) =
      match skipSpace cs with
      | ',' :: after => Reader.members strict fuel nesting (member :: before) after
      | '\x7d' :: after => .ok ((member :: before).reverse, after)
      | other => unexpected other := by
  have short := length_le_escaped member.1.toList
  unfold line at enough shallow ⊢
  rw [quote_toList] at enough shallow ⊢
  simp only [List.length_append, List.length_cons] at enough
  rw [opens_append, opens_cons, opens_cons, opens_cons ' '] at shallow
  have key : Reader.string (strict.forKeys nesting) fuel (member.1.toList.flatMap escapeChar ++
      '"' :: (':' :: ' ' :: textOf member.2 ++ cs)) = .ok (member.1, ':' :: ' ' :: textOf member.2 ++ cs) :=
    string_reads (by omega)
  have one : Blank [' '] := List.forall_mem_singleton.mpr rfl
  have item : value strict fuel nesting ([' '] ++ (textOf member.2 ++ cs)) = .ok (member.2, cs) :=
    writes.reads one closes (by omega) (by omega)
  rw [Reader.members, skipSpace_append blank, List.cons_append, List.cons_append, skipSpace_cons (by decide)]
  rw [List.append_assoc, List.append_assoc, List.singleton_append]
  refine (Result.bind_of_ok key).trans ?_
  dsimp only
  rw [List.cons_append, skipSpace_cons (by decide)]
  exact Result.bind_of_ok item

theorem member_takes {textOf : Json → List Char} {member : String × Json}
    (writes : Writes strict member.2 (textOf member.2)) :
    Takes (Reader.members strict) '\x7d' member (line textOf member) where
  comma blank enough shallow := by
    rw [member_reads writes blank (closes_cons (by decide)) enough shallow, skipSpace_cons (by decide)]
    rfl
  last {_ _ _ _ close rest} blank ends enough shallow := by
    have closes : Closes (close ++ '\x7d' :: rest) := closes_blank ends (closes_cons (by decide))
    rw [member_reads writes blank closes enough shallow, skipSpace_append ends, skipSpace_cons (by decide)]
    rfl

theorem value_object {fuel nesting : Nat} {cs : List Char} {found : List (String × Json)} {c : Char}
    {tail : List Char} (first : skipSpace cs = c :: tail) (present : c ≠ '\x7d')
    (read : Reader.members strict fuel nesting [] cs = .ok (found, rest)) :
    value strict (fuel + 1) (nesting + 1) ('\x7b' :: cs) = .ok (.object found, rest) := by
  rw [value, skipSpace_cons (by decide)]
  dsimp only
  rw [if_neg (by decide), if_neg (by decide), if_neg (by decide), if_neg (by decide), if_neg (by decide), if_pos rfl,
    if_neg (Nat.succ_ne_zero nesting), first]
  split
  · rename_i closing
    exact absurd (List.cons.inj closing).1 present
  · rw [Nat.add_sub_cancel, Result.bind_of_ok read]
    rfl

theorem writes_object {members : List (String × Json)} {render : Json → String}
    (writes : ∀ member ∈ members, Writes strict member.2 (render member.2).toList) :
    Writes strict (.object members)
      (block level "\x7b" (members.map fun member => quote member.1 ++ ": " ++ render member.2) "\x7d").toList := by
  cases members with
  | nil =>
    have text : (block level "\x7b" [] "\x7d").toList = ['\x7b', '\x7d'] := by simp [block]
    rw [List.map_nil, text]
    refine .intro ⟨_, _, rfl, by decide⟩ fun {_ nesting _} _ _ shallow => ?_
    obtain ⟨nesting, rfl⟩ : ∃ n, nesting = n + 1 := ⟨nesting - 1, by have : 1 ≤ nesting := shallow; omega⟩
    rfl
  | cons member members =>
    have lines : (String.toList ∘ fun member : String × Json => quote member.1 ++ ": " ++ render member.2) =
        line (String.toList ∘ render) := by
      funext member
      simp [line]
    rw [block_toList level _ _ (by simp), List.map_map, lines]
    have head : ∃ c tail, line (String.toList ∘ render) member = c :: tail ∧ isSpace c = false ∧ c ≠ '\x7d' := by
      unfold line
      rw [quote_toList]
      exact ⟨'"', _, rfl, by decide⟩
    have takes : ∀ other ∈ member :: members,
        Takes (Reader.members strict) '\x7d' other (line (String.toList ∘ render) other) :=
      fun other inside => member_takes (writes other inside)
    have written : Writes strict (.object (member :: members)) ('\x7b' :: (gap (level + 1) ++
        (listed (level + 1) ((member :: members).map (line (String.toList ∘ render))) ++ (gap level ++ ['\x7d'])))) :=
      writes_listed (.inr rfl) head takes value_object
    simpa using written

/-! ### Whole documents -/

/-- A document that can be held is read from its lines. -/
theorem Held.writes {json : Json} (held : json.Held) (level : Nat) :
    Writes strict json (indentedFrom level json).toList := by
  induction json using Json.induction generalizing level with
  | step json ih =>
    cases json with
    | null =>
      rw [indentedFrom]
      exact writes_null
    | bool b =>
      rw [indentedFrom]
      exact writes_bool b
    | number n =>
      rw [indentedFrom]
      exact writes_number held.number
    | string s =>
      rw [indentedFrom]
      exact writes_string s
    | array items =>
      rw [indentedFrom, indentedItems_eq]
      exact writes_array fun item member => ih item member (held.part member) (level + 1)
    | object members =>
      rw [indentedFrom, indentedMembers_eq]
      refine writes_object fun member inside => ?_
      have part : member.2 ∈ (Json.object members).parts := List.mem_map_of_mem inside
      exact ih member.2 part (held.part part) (level + 1)

theorem Held.document {json : Json} (held : json.Held) (shallow : opens json.indented.toList ≤ strict.maxNesting) :
    Reader.document strict json.indented = .ok json := by
  have writes : Writes strict json json.indented.toList := held.writes 0
  have read : value strict (2 * json.indented.toList.length + 2) strict.maxNesting
      ([] ++ (json.indented.toList ++ [])) = .ok (json, []) :=
    writes.reads (List.forall_mem_nil _) nofun (by omega) shallow
  rw [List.nil_append, List.append_nil] at read
  rw [Reader.document, Result.bind_of_ok read]
  rfl

/-- A document with numbers that can be held and with sorted members is what its own text stands for. -/
theorem meaning_indented {json : Json} (held : json.Held) (ordered : json.Ordered) :
    meaning json.indented = .ok json := by
  have shallow : opens json.indented.toList ≤ json.indented.length := opens_le _
  rw [meaning, held.document shallow]
  exact congrArg Except.ok ordered.sorted_eq

/-- The text is read where it does not nest too deep. -/
theorem ofText_indented {json : Json} (held : json.Held) (ordered : json.Ordered)
    (shallow : opens json.indented.toList ≤ full.maxNesting) : ofText json.indented = .ok json := by
  rw [ofText, read, held.document shallow]
  exact congrArg Except.ok ordered.sorted_eq

/-- A document that some text stands for. -/
def Textual (json : Json) : Prop := ∃ text, meaning text = .ok json

theorem textual_iff {json : Json} : json.Textual ↔ json.Held ∧ json.Ordered :=
  ⟨fun ⟨_, stands⟩ => held_of_meaning stands, fun ⟨held, ordered⟩ => ⟨_, meaning_indented held ordered⟩⟩

namespace Textual

theorem scalar {json : Json} (number : ∀ n, json = .number n → n.Held) (members : json.object? = none)
    (flat : json.parts = []) : json.Textual := by
  refine textual_iff.mpr ⟨.intro number (flat ▸ List.forall_mem_nil _), .intro ?_ (flat ▸ List.forall_mem_nil _)⟩
  rintro _ rfl
  cases members

theorem null : Json.null.Textual := .scalar nofun rfl rfl

theorem bool (b : Bool) : (Json.bool b).Textual := .scalar nofun rfl rfl

theorem string (s : String) : (Json.string s).Textual := .scalar nofun rfl rfl

theorem number {n : Number} (held : n.Held) : (Json.number n).Textual :=
  .scalar (fun _ same => by cases same; exact held) rfl rfl

theorem array {items : List Json} (each : ∀ item ∈ items, item.Textual) : (Json.array items).Textual :=
  textual_iff.mpr ⟨.intro nofun fun item member => (textual_iff.mp (each item member)).1,
    .intro nofun fun item member => (textual_iff.mp (each item member)).2⟩

theorem ofMembers {members : List (String × Json)} (each : ∀ member ∈ members, member.2.Textual) :
    (Json.ofMembers members).Textual := by
  have parts : ∀ part ∈ (Json.ofMembers members).parts, part.Textual :=
    List.forall_mem_map.mpr fun member inside => each member (Keyed.mem_ofList inside)
  refine textual_iff.mpr ⟨.intro nofun fun part inside => (textual_iff.mp (parts part inside)).1,
    .intro ?_ fun part inside => (textual_iff.mp (parts part inside)).2⟩
  rintro _ ⟨⟩
  exact Keyed.sorted_ofList members

end Textual

end TrackedRecord.Json
