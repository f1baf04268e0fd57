import Mathlib.Data.List.Basic
import Mathlib.Data.Nat.Bitwise
import Mathlib.Tactic.Ring
import TrackedRecord.Proofs.Wire.PackedBits
import TrackedRecord.Proofs.Wire.Slice.Refines

/-!
# The reads of a slice

Each read of a slice refines the decoder of the same bytes.
-/

namespace TrackedRecord.Wire.Checked

open Slice (Inside)

variable {size : Nat} {settings : Settings}

/-! ### Bytes -/

theorem remaining_run {s : Slice} (inside : s.Inside size) : remaining s = .ok (size - s.pos) s := by
  change sub s.data.length s.pos s = _
  rw [inside.length, sub_eq inside.pos]
  rfl

theorem exact_refines (n : Nat) : Refines size (exact n) (Decoder.exact n) := by
  intro s inside
  have left := inside.length
  have pos := inside.pos
  have small := inside.small
  have taken : (s.cursor.rest.take n).length = min n (size - s.pos) := by
    rw [List.length_take, inside.rest_length]
  unfold exact Decoder.exact
  rw [Result.bind_of_run (show (get : Checked Slice) s = .ok s s from rfl), Result.bind_of_run (remaining_run inside)]
  dsimp only
  by_cases short : size - s.pos < n
  · rw [if_pos short, if_neg (by omega), sub_eq (Nat.le_of_lt short), taken, Nat.min_eq_right (Nat.le_of_lt short)]
    exact .error inside.onward (.truncated pos)
  · rw [if_neg short, if_pos (by omega), add_eq (by omega), pure_bind, range_eq (by omega), pure_bind]
    have onward : s.Onward { s with pos := s.pos + n } :=
      ⟨rfl, Nat.le_add_right _ _, show s.pos + n ≤ _ by omega⟩
    have rest : (⟨s.cursor.rest.drop n, s.pos + n⟩ : Cursor) = Slice.cursor { s with pos := s.pos + n } := by
      rw [Slice.cursor, Slice.cursor, List.drop_drop]
    change Slice.Agree size s _ (EStateM.Result.ok _ (⟨s.cursor.rest.drop n, s.pos + n⟩ : Cursor))
    rw [rest]
    exact .ok onward

theorem array_refines (n : Nat) : Refines size (array n) (Decoder.exact n) := by
  rw [← bind_pure (Decoder.exact n)]
  refine (exact_refines n).bind_given (Decoder.exact_gives n) fun bytes length => ?_
  rw [if_pos length]
  exact .pure bytes

/-- The first of exactly one byte. -/
theorem byte_eq_exact : Decoder.byte = do let bytes ← Decoder.exact 1; return bytes.headD 0 := by
  funext c
  obtain ⟨rest, pos⟩ := c
  cases rest with
  | nil => rfl
  | cons b rest => rfl

theorem byte_refines : Refines size byte Decoder.byte := by
  rw [byte_eq_exact]
  refine (array_refines 1).bind_given (Decoder.exact_gives 1) fun bytes length => ?_
  obtain ⟨b, rfl⟩ := List.length_eq_one_iff.mp length
  exact .pure b

/-! ### Varints -/

theorem group_toNat (b : UInt8) : (b &&& 0x7F).toUInt64.toNat = b.toNat % 0x80 := by
  rw [UInt8.toNat_toUInt64, UInt8.toNat_and]
  exact Nat.and_two_pow_sub_one_eq_mod b.toNat 7

theorem last_iff (b : UInt8) : b &&& 0x80 = 0 ↔ b.toNat < 0x80 := by
  have small := b.toNat_lt
  rw [← UInt8.toNat_inj, UInt8.toNat_and]
  change b.toNat &&& 2 ^ 7 = 0 ↔ _
  rw [Nat.and_two_pow, Nat.testBit_eq_decide_div_mod_eq]
  by_cases high : b.toNat / 2 ^ 7 % 2 = 1
  · rw [decide_eq_true high, Bool.toNat_true]
    omega
  · rw [decide_eq_false high, Bool.toNat_false]
    omega

/-- No bit of a group is shifted out of the word. -/
theorem group_fits {left i low : Nat} (whole : i + (left + 1) = 10) (allowed : ¬(left = 0 ∧ 1 < low))
    (small : low < 0x80) : low * 2 ^ (7 * i) < 2 ^ 64 := by
  by_cases last : left = 0
  · obtain rfl : i = 9 := by omega
    omega
  · have power : 2 ^ (7 * i) ≤ 2 ^ 56 := Nat.pow_le_pow_right (by decide) (by omega)
    calc
      low * 2 ^ (7 * i) ≤ 0x7F * 2 ^ 56 := Nat.mul_le_mul (by omega) power
      _ < 2 ^ 64 := by decide

/-- A group of `low` is put above `bits` bits. -/
theorem or_shiftLeft_toNat {value low : UInt64} {bits : Nat} (word : bits < 64) (below : value.toNat < 2 ^ bits)
    (fits : low.toNat * 2 ^ bits < 2 ^ 64) :
    (value ||| low <<< UInt64.ofNat bits).toNat = value.toNat + 2 ^ bits * low.toNat := by
  have shift : (UInt64.ofNat bits).toNat % 64 = bits := by
    rw [UInt64.toNat_ofNat_of_lt' (Nat.lt_trans word (by decide)), Nat.mod_eq_of_lt word]
  rw [UInt64.toNat_or, UInt64.toNat_shiftLeft, shift, Nat.shiftLeft_eq, Nat.mod_eq_of_lt fits, Nat.or_comm,
    Nat.mul_comm low.toNat, ← Nat.two_pow_add_eq_or_of_lt below, Nat.add_comm]

theorem two_pow_group (i : Nat) : 2 ^ (7 * (i + 1)) = 0x80 * 2 ^ (7 * i) := by
  rw [Nat.mul_succ, Nat.pow_add, Nat.mul_comm]

/-- Group number `i` goes above the bits of those before it. -/
theorem group_joined {value : UInt64} {b : UInt8} {left i : Nat} (whole : i + (left + 1) = 10)
    (allowed : ¬(left = 0 ∧ 1 < b.toNat % 0x80)) (below : value.toNat < 2 ^ (7 * i)) :
    (value ||| (b &&& 0x7F).toUInt64 <<< UInt64.ofNat (7 * i)).toNat =
        value.toNat + 2 ^ (7 * i) * (b.toNat % 0x80) ∧
      value.toNat + 2 ^ (7 * i) * (b.toNat % 0x80) < 2 ^ (7 * (i + 1)) := by
  have low := group_toNat b
  have fits := group_fits whole allowed (Nat.mod_lt b.toNat (by decide))
  have joined := or_shiftLeft_toNat (by omega) below (low ▸ fits)
  rw [low] at joined
  have group : 2 ^ (7 * i) * (b.toNat % 0x80) ≤ 2 ^ (7 * i) * 0x7F := Nat.mul_le_mul_left _ (by omega)
  refine ⟨joined, ?_⟩
  rw [two_pow_group]
  omega

theorem varintGroups_refines {start : Nat} (inside : start ≤ size) {left i : Nat} {value : UInt64}
    (whole : i + left = 10) (below : value.toNat < 2 ^ (7 * i)) :
    Refines size (varintGroups start left i value)
      (do let n ← Decoder.varintGroups start left; return value.toNat + 2 ^ (7 * i) * n) := by
  induction left generalizing i value with
  | zero => exact .refuse (.malformed inside)
  | succ left ih =>
    rw [Decoder.varintGroups_succ, bind_assoc]
    refine byte_refines.bind fun b => ?_
    have more : left = 0 ∧ 1 < (b &&& 0x7F).toUInt64 ↔ left = 0 ∧ 1 < b.toNat % 0x80 := by
      rw [UInt64.lt_iff_toNat_lt, group_toNat]
      rfl
    by_cases overflow : left = 0 ∧ 1 < b.toNat % 0x80
    · rw [if_pos (more.mpr overflow), if_pos overflow]
      exact .refuse (.malformed inside)
    · rw [if_neg (mt more.mp overflow), if_neg overflow, mul_eq (by simp only [wordBound]; omega), pure_bind,
        amount_eq (by omega), pure_bind]
      obtain ⟨joined, belowNext⟩ := group_joined whole overflow below
      by_cases last : b.toNat < 0x80
      · rw [if_pos ((last_iff b).mpr last), if_pos last, joined]
        exact .pure _
      · rw [if_neg (mt (last_iff b).mp last), if_neg last]
        have rest := ih (by omega) (joined ▸ belowNext)
        have same (high : Nat) : value.toNat + 2 ^ (7 * i) * (b.toNat % 0x80) + 2 ^ (7 * (i + 1)) * high =
            value.toNat + 2 ^ (7 * i) * (b.toNat % 0x80 + 0x80 * high) := by
          rw [two_pow_group]
          ring
        simp only [joined, same] at rest
        simpa only [bind_assoc, pure_bind] using rest

theorem varint_refines : Refines size varint Decoder.varint := by
  refine .position fun start inside => ?_
  have groups := varintGroups_refines inside (show 0 + 10 = 10 from rfl)
    (show (0 : UInt64).toNat < 2 ^ (7 * 0) from Nat.one_pos)
  simpa using groups

/-! ### Scalars -/

theorem count_refines : Refines size (count settings) (Decoder.count settings) := by
  refine .position fun start inside => varint_refines.bind fun n => ?_
  exact .ite (fun _ => .refuse (.malformed inside)) fun _ => .pure n

theorem boolean_refines : Refines size boolean Decoder.boolean := by
  refine .position fun start inside => byte_refines.bind fun b => ?_
  exact .ite (fun _ => .pure false) fun _ => .ite (fun _ => .pure true) fun _ => .refuse (.malformed inside)

theorem fixedWidth_refines (width : Nat) : Refines size (fixedWidth width) (Decoder.fixedWidth width) :=
  (array_refines width).map

theorem int32_refines : Refines size int32 Decoder.int32 := (fixedWidth_refines 4).map

theorem int64_refines : Refines size int64 Decoder.int64 := (fixedWidth_refines 8).map

theorem float32_refines : Refines size float32 Decoder.float32 := (fixedWidth_refines 4).map

theorem float64_refines : Refines size float64 Decoder.float64 := (fixedWidth_refines 8).map

theorem byteString_refines : Refines size (byteString settings) (Decoder.byteString settings) := by
  refine .position fun start inside => varint_refines.bind fun length => ?_
  exact .ite (fun _ => .refuse (.malformed inside)) fun _ => exact_refines length

theorem text_refines : Refines size (text settings) (Decoder.text settings) := by
  refine .position fun start inside => byteString_refines.bind fun bytes => ?_
  cases Utf8.decode? bytes with
  | some s => exact .pure s
  | none => exact .refuse (.malformed inside)

/-! ### Bit sets -/

theorem index_word {bits : FieldBits} (formed : bits.WellFormed) {i : Nat} (inside : i < bits.len) :
    i / 64 < bits.words.length := by
  rw [formed.words]
  omega

theorem getBit_eq {bits : FieldBits} (formed : bits.WellFormed) (i : Nat) : getBit bits i = pure (bits.get i) := by
  unfold getBit FieldBits.get
  by_cases inside : i < bits.len
  · have word := List.getElem?_eq_getElem (index_word formed inside)
    rw [if_pos inside, if_pos inside, index_eq word, pure_bind, amount_eq (Nat.mod_lt i (by decide)), pure_bind,
      List.getD_eq_getElem?_getD, word]
    rfl
  · rw [if_neg inside, if_neg inside]

theorem setBit_eq {bits : FieldBits} (formed : bits.WellFormed) (i : Nat) : setBit bits i = pure (bits.set i) := by
  unfold setBit FieldBits.set
  by_cases inside : i < bits.len
  · have word := index_word formed inside
    rw [if_pos inside, if_pos inside, index_eq (List.getElem?_eq_getElem word), pure_bind,
      amount_eq (Nat.mod_lt i (by decide)), pure_bind, put_eq word, pure_bind, List.modify_eq_set_get _ word]
    rfl
  · rw [if_neg inside, if_neg inside]

theorem foldlM_setBit {bits : FieldBits} (formed : bits.WellFormed) (positions : List Nat) :
    positions.foldlM setBit bits = pure (positions.foldl FieldBits.set bits) := by
  induction positions generalizing bits with
  | nil => rfl
  | cons i rest ih =>
    rw [List.foldlM_cons, setBit_eq formed, pure_bind, ih (formed.set i)]
    rfl

theorem setAll_eq {bits : FieldBits} (formed : bits.WellFormed) : setAll bits = pure bits.setAll :=
  foldlM_setBit formed _

theorem filterAuxM_pure {α : Type} (p : α → Bool) (items kept : List α) :
    items.filterAuxM (fun a => (pure (p a) : Checked Bool)) kept = pure ((items.filter p).reverse ++ kept) := by
  induction items generalizing kept with
  | nil => rfl
  | cons a rest ih =>
    rw [List.filterAuxM, pure_bind, ih]
    cases holds : p a <;> simp [holds]

theorem ones_eq {bits : FieldBits} (formed : bits.WellFormed) : ones bits = pure bits.ones := by
  have each : getBit bits = fun i => pure (bits.get i) := funext (getBit_eq formed)
  rw [ones, each, List.filterM, filterAuxM_pure, pure_bind, List.append_nil, List.reverse_reverse]
  rfl

/-! ### Packed bits -/

/-- The set with a bit that was read put at its position. -/
def joinBit (bits : FieldBits) : Bool × Nat → FieldBits
  | (bit, i) => if bit then bits.set i else bits

theorem joinBit_wellFormed {bits : FieldBits} (formed : bits.WellFormed) (entry : Bool × Nat) :
    (joinBit bits entry).WellFormed ∧ (joinBit bits entry).len = bits.len := by
  obtain ⟨bit, i⟩ := entry
  cases bit with
  | true => exact ⟨formed.set i, FieldBits.set_len bits i⟩
  | false => exact ⟨formed, rfl⟩

/-- Whether a set bit stands beyond the last one of a set. -/
def isPadding (len : Nat) : Bool × Nat → Bool
  | (bit, i) => bit && decide (len ≤ i)

theorem unpackBit_eq {start len k : Nat} {b : UInt8} {bits : FieldBits} (formed : bits.WellFormed) {j : Nat}
    (inByte : j < 8) (word : 8 * k + j < wordBound) :
    unpackBit start len k b bits j =
      if isPadding len (b.toNat.testBit j, 8 * k + j) then refuse (.malformed start .paddingBit)
      else pure (joinBit bits (b.toNat.testBit j, 8 * k + j)) := by
  unfold unpackBit isPadding joinBit
  rw [amount_eq inByte, pure_bind]
  cases b.toNat.testBit j with
  | false => rfl
  | true =>
    rw [if_pos rfl, mul_eq (by omega), pure_bind, Nat.mul_comm k, add_eq word, pure_bind, setBit_eq formed]
    by_cases beyond : len ≤ 8 * k + j
    · simp [beyond]
    · simp [beyond]

/-- Bits one after another: either one of them is padding or all are put into the set. -/
def joinBits (start len : Nat) (entries : List (Bool × Nat)) (bits : FieldBits) : Checked FieldBits :=
  if entries.any (isPadding len) then refuse (.malformed start .paddingBit) else pure (entries.foldl joinBit bits)

theorem joinBits_append (start len : Nat) (front back : List (Bool × Nat)) (bits : FieldBits) :
    joinBits start len (front ++ back) bits =
      (do let bits ← joinBits start len front bits; joinBits start len back bits) := by
  unfold joinBits
  rw [List.any_append, List.foldl_append]
  cases front.any (isPadding len) with
  | true => rfl
  | false => rfl

theorem foldlM_unpackBit {start len k : Nat} {b : UInt8} {bits : FieldBits} (formed : bits.WellFormed)
    {positions : List Nat} (inByte : ∀ j ∈ positions, j < 8) (word : 8 * (k + 1) ≤ wordBound) :
    positions.foldlM (unpackBit start len k b) bits =
      joinBits start len (positions.map fun j => (b.toNat.testBit j, 8 * k + j)) bits := by
  induction positions generalizing bits with
  | nil => rfl
  | cons j rest ih =>
    rw [List.forall_mem_cons] at inByte
    rw [List.foldlM_cons, unpackBit_eq formed inByte.1 (by omega), List.map_cons]
    unfold joinBits at ih ⊢
    rw [List.any_cons, List.foldl_cons]
    cases isPadding len (b.toNat.testBit j, 8 * k + j) with
    | true => rfl
    | false => exact ih (joinBit_wellFormed formed _).1 inByte.2

theorem zipIdx_unpackByte (b : UInt8) (n : Nat) :
    (unpackByte b).zipIdx n = (List.range 8).map fun j => (b.toNat.testBit j, n + j) := rfl

theorem joinBits_wellFormed {bits : FieldBits} (formed : bits.WellFormed) (entries : List (Bool × Nat)) :
    (entries.foldl joinBit bits).WellFormed := by
  induction entries generalizing bits with
  | nil => exact formed
  | cons entry rest ih => exact ih (joinBit_wellFormed formed entry).1

theorem unpackBytes_eq {start len k : Nat} {bytes : List UInt8} {bits : FieldBits} (formed : bits.WellFormed)
    (word : 8 * (k + bytes.length) ≤ wordBound) :
    unpackBytes start len k bytes bits =
      joinBits start len ((bytes.flatMap unpackByte).zipIdx (8 * k)) bits := by
  induction bytes generalizing k bits with
  | nil => rfl
  | cons b rest ih =>
    rw [List.length_cons] at word
    rw [unpackBytes, foldlM_unpackBit formed (fun j => List.mem_range.mp) (by omega), List.flatMap_cons,
      List.zipIdx_append, joinBits_append, ← zipIdx_unpackByte, unpackByte_length, ← Nat.mul_succ]
    unfold joinBits at ih ⊢
    cases ((unpackByte b).zipIdx (8 * k)).any (isPadding len) with
    | true => rfl
    | false => exact ih (joinBits_wellFormed formed _) (by omega)

theorem any_isPadding (len n : Nat) (bools : List Bool) :
    (bools.zipIdx n).any (isPadding len) = (bools.drop (len - n)).any id := by
  induction bools generalizing n with
  | nil => simp
  | cons bit rest ih =>
    rw [List.zipIdx_cons, List.any_cons, ih, isPadding]
    by_cases beyond : len ≤ n
    · rw [Nat.sub_eq_zero_of_le beyond, Nat.sub_eq_zero_of_le (Nat.le_succ_of_le beyond), decide_eq_true beyond]
      simp
    · obtain ⟨more, same⟩ := Nat.exists_eq_succ_of_ne_zero (Nat.sub_ne_zero_of_lt (Nat.lt_of_not_le beyond))
      rw [same, List.drop_succ_cons, show len - (n + 1) = more by omega, decide_eq_false beyond, Bool.and_false,
        Bool.false_or]

/-- Clear bits leave a set as it is. -/
theorem foldl_joinBit_clear {bools : List Bool} (clear : bools.any id = false) (n : Nat) (bits : FieldBits) :
    (bools.zipIdx n).foldl joinBit bits = bits := by
  induction bools generalizing n with
  | nil => rfl
  | cons bit rest ih =>
    rw [List.any_cons, Bool.or_eq_false_iff] at clear
    obtain ⟨rfl, clear⟩ := clear
    exact ih clear (n + 1)

theorem packedBits_refines {len : Nat} (word : len < wordBound) :
    Refines size (packedBits len) (Decoder.packedBits len) := by
  refine .position fun start inside => (exact_refines _).bind_given (Decoder.exact_gives _) fun bytes length => ?_
  have room : 8 * (0 + bytes.length) ≤ wordBound := by
    rw [length, packedLength]
    simp only [wordBound] at word ⊢
    omega
  rw [unpackBytes_eq (FieldBits.new_wellFormed len) room, joinBits, any_isPadding, Nat.mul_zero, Nat.sub_zero]
  refine .ite (fun _ => .refuse (.malformed inside)) fun clear => ?_
  have taken : ((bytes.flatMap unpackByte).take len).length = len := by
    rw [List.length_take, flatMap_unpackByte_length, length, packedLength]
    omega
  have joined : ((bytes.flatMap unpackByte).zipIdx 0).foldl joinBit (FieldBits.new len) =
      FieldBits.ofBools ((bytes.flatMap unpackByte).take len) := by
    conv_lhs => rw [← List.take_append_drop len (bytes.flatMap unpackByte)]
    rw [List.zipIdx_append, List.foldl_append, foldl_joinBit_clear (Bool.eq_false_iff.mpr clear), FieldBits.ofBools,
      taken]
    rfl
  rw [joined]
  exact .pure _

theorem bits_refines : Refines size (bits settings) (Decoder.bits settings) :=
  count_refines.bind_given (Decoder.count_gives settings) fun _ word => packedBits_refines word

end TrackedRecord.Wire.Checked
