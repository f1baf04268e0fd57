import Mathlib.Tactic.Common
import TrackedRecord.Text.Base64
import TrackedRecord.Text.Blank

/-!
# Base64 read back

Bytes come back from their Base64 form. No symbol is a blank, so the form comes back from the line that it stands on.
-/

namespace TrackedRecord

/-- A line of characters that are no blanks, without its end. -/
theorem Text.trimChars_line {cs : List Char} (solid : ∀ c ∈ cs, isBlank c = false) :
    trimChars (cs ++ ['\n']) = cs := by
  have front : (cs ++ ['\n']).dropWhile isBlank = if cs = [] then [] else cs ++ ['\n'] := by
    cases cs with
    | nil => decide
    | cons c rest =>
      rw [List.cons_append, List.dropWhile_cons_of_neg (by simp [solid c List.mem_cons_self])]
      rfl
  have back : cs.reverse.dropWhile isBlank = cs.reverse := by
    cases reversed : cs.reverse with
    | nil => rfl
    | cons c rest =>
      have member : c ∈ cs := List.mem_reverse.mp (reversed ▸ List.mem_cons_self)
      rw [List.dropWhile_cons_of_neg (by simp [solid c member])]
  unfold trimChars
  rw [front]
  split
  · subst_vars
    rfl
  · rw [List.reverse_append, List.reverse_singleton, List.singleton_append, List.dropWhile_cons_of_pos (by decide),
      back, List.reverse_reverse]

theorem Text.trim_line {text : String} (solid : ∀ c ∈ text.toList, isBlank c = false) : trim (text ++ "\n") = text := by
  rw [trim, String.toList_append]
  exact (congrArg String.ofList (trimChars_line solid)).trans String.ofList_toList

namespace Base64

theorem value?_symbol {n : Nat} (small : n < 64) : value? (symbol n) = some n :=
  (by decide : ∀ n < 64, value? (symbol n) = some n) n small

theorem symbol_solid {n : Nat} (small : n < 64) : symbol n ≠ '=' ∧ Text.isBlank (symbol n) = false :=
  (by decide : ∀ n < 64, symbol n ≠ '=' ∧ Text.isBlank (symbol n) = false) n small

/-- The last group where nothing is padded. -/
theorem decodeLast?_whole {x y z w : Nat} (smallX : x < 64) (smallY : y < 64) (smallZ : z < 64) (smallW : w < 64) :
    decodeLast? (symbol x) (symbol y) (symbol z) (symbol w) =
      some [UInt8.ofNat (x * 4 + y / 16), UInt8.ofNat (y % 16 * 16 + z / 4), UInt8.ofNat (z % 4 * 64 + w)] := by
  have last := (symbol_solid smallW).1
  simp [decodeLast?, value?_symbol, smallX, smallY, smallZ, smallW, last]

/-- Groups of which one more follows are not padded. -/
theorem decodeChars?_group {x y z w : Nat} (smallX : x < 64) (smallY : y < 64) (smallZ : z < 64) (smallW : w < 64)
    (rest : List Char) :
    decodeChars? (symbol x :: symbol y :: symbol z :: symbol w :: rest) = (decodeChars? rest).map fun bytes =>
      UInt8.ofNat (x * 4 + y / 16) :: UInt8.ofNat (y % 16 * 16 + z / 4) :: UInt8.ofNat (z % 4 * 64 + w) :: bytes := by
  cases rest with
  | nil => exact decodeLast?_whole smallX smallY smallZ smallW
  | cons c rest =>
    rw [decodeChars?, value?_symbol smallX, value?_symbol smallY, value?_symbol smallZ, value?_symbol smallW]
    · cases decodeChars? (c :: rest) <;> rfl
    · exact nofun

theorem decodeChars?_encodeChars (bytes : List UInt8) : decodeChars? (encodeChars bytes) = some bytes := by
  induction bytes using encodeChars.induct with
  | case1 => rfl
  | case2 a =>
    have small := a.toNat_lt
    have low : a.toNat % 4 * 16 % 16 = 0 := by omega
    have whole : a.toNat / 4 * 4 + a.toNat % 4 * 16 / 16 = a.toNat := by omega
    simp only [encodeChars, decodeChars?, decodeLast?, value?_symbol (show a.toNat / 4 < 64 by omega),
      value?_symbol (show a.toNat % 4 * 16 < 64 by omega), Option.bind_eq_bind, Option.bind_some, low, whole,
      and_self, if_true, UInt8.ofNat_toNat]
  | case3 a b =>
    have smallA := a.toNat_lt
    have smallB := b.toNat_lt
    have third : symbol (b.toNat % 16 * 4) ≠ '=' := (symbol_solid (by omega)).1
    have low : b.toNat % 16 * 4 % 4 = 0 := by omega
    have first : a.toNat / 4 * 4 + (a.toNat % 4 * 16 + b.toNat / 16) / 16 = a.toNat := by omega
    have second : (a.toNat % 4 * 16 + b.toNat / 16) % 16 * 16 + b.toNat % 16 * 4 / 4 = b.toNat := by omega
    simp only [encodeChars, decodeChars?, decodeLast?, value?_symbol (show a.toNat / 4 < 64 by omega),
      value?_symbol (show a.toNat % 4 * 16 + b.toNat / 16 < 64 by omega),
      value?_symbol (show b.toNat % 16 * 4 < 64 by omega), Option.bind_eq_bind, Option.bind_some, third, false_and,
      if_false, if_true, low, first, second, UInt8.ofNat_toNat]
  | case4 a b c rest ih =>
    have smallA := a.toNat_lt
    have smallB := b.toNat_lt
    have smallC := c.toNat_lt
    have first : a.toNat / 4 * 4 + (a.toNat % 4 * 16 + b.toNat / 16) / 16 = a.toNat := by omega
    have second : (a.toNat % 4 * 16 + b.toNat / 16) % 16 * 16 + (b.toNat % 16 * 4 + c.toNat / 64) / 4 = b.toNat := by
      omega
    have third : (b.toNat % 16 * 4 + c.toNat / 64) % 4 * 64 + c.toNat % 64 = c.toNat := by omega
    rw [encodeChars, decodeChars?_group (by omega) (by omega) (by omega) (by omega), ih, first, second, third,
      UInt8.ofNat_toNat, UInt8.ofNat_toNat, UInt8.ofNat_toNat]
    rfl

theorem encodeChars_solid (bytes : List UInt8) : ∀ c ∈ encodeChars bytes, Text.isBlank c = false := by
  have symbols {n : Nat} (small : n < 64) := (symbol_solid small).2
  induction bytes using encodeChars.induct with
  | case1 => exact List.forall_mem_nil _
  | case2 a =>
    have small := a.toNat_lt
    simp only [encodeChars, List.forall_mem_cons]
    exact ⟨symbols (by omega), symbols (by omega), by decide, by decide, List.forall_mem_nil _⟩
  | case3 a b =>
    have smallA := a.toNat_lt
    have smallB := b.toNat_lt
    simp only [encodeChars, List.forall_mem_cons]
    exact ⟨symbols (by omega), symbols (by omega), symbols (by omega), by decide, List.forall_mem_nil _⟩
  | case4 a b c rest ih =>
    have smallA := a.toNat_lt
    have smallB := b.toNat_lt
    have smallC := c.toNat_lt
    simp only [encodeChars, List.forall_mem_cons]
    exact ⟨symbols (by omega), symbols (by omega), symbols (by omega), symbols (by omega), ih⟩

theorem decode?_encode (bytes : List UInt8) : decode? (encode bytes) = some bytes := by
  rw [decode?, encode, String.toList_ofList, decodeChars?_encodeChars]

theorem encode_solid (bytes : List UInt8) : ∀ c ∈ (encode bytes).toList, Text.isBlank c = false := by
  rw [encode, String.toList_ofList]
  exact encodeChars_solid bytes

end Base64

end TrackedRecord
