import Mathlib.Data.String.Basic
import TrackedRecord.Schema.Vocabulary

/-!
# Names and namespaces

A name is an identifier of ASCII. A namespace is split at its points into names, so it is names with points between
them.
-/

namespace TrackedRecord

/-! ### Identifiers -/

namespace Text

def Letter (c : Char) : Prop := ('A' ≤ c ∧ c ≤ 'Z') ∨ ('a' ≤ c ∧ c ≤ 'z') ∨ c = '_'

def Digit (c : Char) : Prop := '0' ≤ c ∧ c ≤ '9'

/-- A letter or an underscore, then letters, underscores and digits. -/
def Identifier (name : String) : Prop :=
  ∃ first rest, name.toList = first :: rest ∧ Letter first ∧ ∀ c ∈ rest, Letter c ∨ Digit c

/-- Identifiers with points between them. -/
def Dotted (text : String) : Prop :=
  ∃ names : List String, names ≠ [] ∧ (∀ name ∈ names, Identifier name) ∧ text = ".".intercalate names

/-! ### Splitting at points -/

open String (ofList utf8Len)

/-- The parts of `l ++ m ++ r` from a part that begins behind `l` and has been read up to the end of `m`. -/
theorem splitOnAux_point (l m r : List Char) (before : List String) :
    (ofList (l ++ m ++ r)).splitOnAux "." ⟨utf8Len l⟩ ⟨utf8Len l + utf8Len m⟩ 0 before =
      before.reverse ++ (List.splitOnPPrepend (· == '.') r m.reverse).map ofList := by
  induction r generalizing l m before with
  | nil =>
    have last := String.extract_of_valid l m []
    have ended : String.Pos.Raw.atEnd (ofList (l ++ m ++ [])) ⟨utf8Len l + utf8Len m⟩ = true := by
      rw [String.atEnd_iff, String.rawEndPos_ofList]
      simp
    rw [String.splitOnAux, if_pos ended, last]
    simp
  | cons c r ih =>
    have here := String.get_of_valid (l ++ m) (c :: r)
    have next := String.next_of_valid (l ++ m) c r
    have part := String.extract_of_valid l m (c :: r)
    have inside : ¬String.Pos.Raw.atEnd (ofList (l ++ m ++ c :: r)) ⟨utf8Len l + utf8Len m⟩ = true := by
      have long := c.utf8Size_pos
      rw [String.atEnd_iff, String.rawEndPos_ofList]
      simp
      omega
    have point : String.Pos.Raw.get "." 0 = '.' := by decide
    have only : String.Pos.Raw.next "." 0 = ⟨1⟩ := by decide
    rw [String.utf8Len_append] at here next
    rw [String.splitOnAux, if_neg inside, here, point, List.headD_cons, List.splitOnPPrepend_cons_eq_if]
    by_cases same : c = '.'
    · subst same
      have rest := ih (l ++ m ++ ['.']) [] (ofList m :: before)
      have width : '.'.utf8Size = 1 := by decide
      have ended : String.Pos.Raw.atEnd "." ⟨1⟩ = true := by decide
      have back : String.Pos.Raw.unoffsetBy ⟨utf8Len l + utf8Len m + 1⟩ ⟨1⟩ = ⟨utf8Len l + utf8Len m⟩ := rfl
      rw [if_pos (beq_self_eq_true _), if_pos (beq_self_eq_true _), next, width, only]
      dsimp only
      rw [if_pos ended, back, part]
      simpa [-String.ofList_append, Nat.add_assoc, width] using rest
    · have rest := ih l (m ++ [c]) before
      have other : ¬(c == '.') = true := fun point => same (eq_of_beq point)
      have back : String.Pos.Raw.unoffsetBy ⟨utf8Len l + utf8Len m⟩ 0 = ⟨utf8Len l + utf8Len m⟩ := rfl
      rw [if_neg other, if_neg other, back, next]
      simpa [-String.ofList_append, Nat.add_assoc] using rest

theorem splitOn_point (text : String) : text.splitOn "." = (text.toList.splitOn '.').map ofList := by
  have parts := splitOnAux_point [] [] text.toList []
  rw [String.splitOn, if_neg (by decide)]
  simpa [List.splitOn] using parts

theorem intercalate_splitOn (text : String) : ".".intercalate (text.splitOn ".") = text := by
  rw [← String.toList_inj, String.toList_intercalate, splitOn_point, List.map_map]
  simp [List.intercalate_splitOn]

end Text

/-! ### What is checked -/

namespace Vocabulary

open Text (Letter Digit Identifier Dotted)

theorem isNameStart_iff {c : Char} : isNameStart c = true ↔ Letter c := by
  have ranges : c.isAlpha = (decide ('A' ≤ c ∧ c ≤ 'Z') || (decide ('a' ≤ c) && decide (c ≤ 'z'))) := rfl
  simp only [isNameStart, ranges, Bool.or_eq_true, Bool.and_eq_true, decide_eq_true_eq, or_assoc]
  exact Iff.rfl

theorem isDigit_iff {c : Char} : c.isDigit = true ↔ Digit c := by
  have range : c.isDigit = (decide ('0' ≤ c) && decide (c ≤ '9')) := rfl
  simp only [range, Bool.and_eq_true, decide_eq_true_eq]
  exact Iff.rfl

theorem isName_iff {name : String} : isName name = true ↔ Identifier name := by
  unfold isName Identifier
  cases name.toList with
  | nil => simp
  | cons first rest =>
    simp only [Bool.and_eq_true, List.all_eq_true, Bool.or_eq_true, isNameStart_iff, isDigit_iff]
    constructor
    · exact fun ⟨start, others⟩ => ⟨first, rest, rfl, start, others⟩
    · rintro ⟨_, _, ⟨⟩, start, others⟩
      exact ⟨start, others⟩

theorem dotted_of_names {scope : String} (names : (scope.splitOn ".").all isName = true) : Dotted scope := by
  refine ⟨scope.splitOn ".", ?_, fun name member => ?_, (Text.intercalate_splitOn scope).symm⟩
  · rw [Text.splitOn_point]
    exact fun empty => List.splitOn_ne_nil _ _ (List.map_eq_nil_iff.mp empty)
  · exact isName_iff.mp (List.all_eq_true.mp names name member)

end Vocabulary

end TrackedRecord
