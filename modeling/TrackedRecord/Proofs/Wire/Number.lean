import Mathlib.Data.Nat.Digits.Defs
import TrackedRecord.Proofs.Wire.Decoder

/-!
# Reading numbers back

A group of bytes spells the number of its lower seven bits, lowest first, if every byte but the last has its high
bit set. `Reads d bytes a` says that `d` takes exactly `bytes` from the front of any input and gives `a`. Every
group of a number that is short enough is read as the number; what is written for it is the shortest of them.
-/

namespace TrackedRecord.Wire

theorem wordBound_pos : 0 < wordBound := by decide

/-! ### Lengths of numbers -/

theorem Varint.ofNat_length_pos (n : Nat) : 0 < (Varint.ofNat n).length := by
  unfold Varint.ofNat Varint.encode Varint.groups
  split <;> simp

theorem Varint.ofNat_length_one {n : Nat} (small : n < 0x80) : (Varint.ofNat n).length = 1 := by
  have same : (UInt64.ofNat n).toNat = n := by simp; omega
  rw [Varint.ofNat, Varint.encode, same, Varint.groups, if_pos small]
  rfl

theorem Varint.groups_length_le (more v : Nat) : (Varint.groups more v).length ≤ more + 1 := by
  induction more generalizing v with
  | zero => exact Nat.le_refl _
  | succ more ih =>
    rw [Varint.groups]
    split
    · exact Nat.le_add_left _ _
    · exact Nat.succ_le_succ (ih _)

theorem Varint.ofNat_length_le (n : Nat) : (Varint.ofNat n).length ≤ 10 := Varint.groups_length_le 9 _

/-! ### Groups of bytes -/

namespace Varint

/-- Whether the byte has its high bit set: another one follows. -/
def goesOn (b : UInt8) : Bool := b.toNat.testBit 7

/-- Every byte goes on but the last. -/
def Group (bytes : List UInt8) : Prop :=
  ∃ front last, bytes = front ++ [last] ∧ (∀ b ∈ front, goesOn b = true) ∧ goesOn last = false

/-- The number whose digits to the base 128, lowest first, are the lower seven bits of the bytes. -/
def number (bytes : List UInt8) : Nat := Nat.ofDigits 0x80 (bytes.map fun b => b.toNat % 0x80)

theorem goesOn_iff {b : UInt8} : goesOn b = true ↔ ¬b.toNat < 0x80 := by
  have small := b.toNat_lt
  rw [goesOn, Nat.testBit_eq_decide_div_mod_eq, decide_eq_true_iff]
  omega

theorem goesOn_eq_false_iff {b : UInt8} : goesOn b = false ↔ b.toNat < 0x80 := by
  rw [← Bool.not_eq_true, goesOn_iff, Decidable.not_not]

theorem not_group_nil : ¬Group [] := by
  rintro ⟨front, last, same, _⟩
  simp at same

theorem group_cons {b : UInt8} {rest : List UInt8} :
    Group (b :: rest) ↔ (b.toNat < 0x80 ∧ rest = []) ∨ (¬b.toNat < 0x80 ∧ Group rest) := by
  constructor
  · rintro ⟨front, last, same, each, ends⟩
    cases front with
    | nil =>
      obtain ⟨rfl, rfl⟩ := List.cons_eq_cons.mp same
      exact Or.inl ⟨goesOn_eq_false_iff.mp ends, rfl⟩
    | cons b' front =>
      obtain ⟨rfl, rfl⟩ := List.cons_eq_cons.mp same
      rw [List.forall_mem_cons] at each
      exact Or.inr ⟨goesOn_iff.mp each.1, front, last, rfl, each.2, ends⟩
  · rintro (⟨ends, rfl⟩ | ⟨goes, front, last, rfl, each, ends⟩)
    · exact ⟨[], b, rfl, List.forall_mem_nil _, goesOn_eq_false_iff.mpr ends⟩
    · exact ⟨b :: front, last, rfl, List.forall_mem_cons.mpr ⟨goesOn_iff.mpr goes, each⟩, ends⟩

theorem number_cons (b : UInt8) (rest : List UInt8) :
    number (b :: rest) = b.toNat % 0x80 + 0x80 * number rest := by
  rw [number, List.map_cons, Nat.ofDigits_cons]
  rfl

/-- What is written for a number is a group of it. -/
theorem groups_spell {more v : Nat} (small : v < 2 * Nat.pow 0x80 more) :
    Group (groups more v) ∧ number (groups more v) = v := by
  have one {n : Nat} (low : n < 0x80) : Group [UInt8.ofNat n] ∧ number [UInt8.ofNat n] = n := by
    have byte : (UInt8.ofNat n).toNat = n := by simp; omega
    refine ⟨group_cons.mpr (Or.inl ⟨byte.symm ▸ low, rfl⟩), ?_⟩
    rw [number_cons, byte, Nat.mod_eq_of_lt low]
    rfl
  induction more generalizing v with
  | zero => exact one (by simp at small; omega)
  | succ more ih =>
    rw [groups]
    split
    · exact one ‹_›
    · have byte : (UInt8.ofNat (v % 0x80 + 0x80)).toNat = v % 0x80 + 0x80 := by simp; omega
      have high : v / 0x80 < 2 * Nat.pow 0x80 more := by
        simp only [Nat.pow_eq, Nat.pow_succ] at small ⊢
        omega
      obtain ⟨group, spelled⟩ := ih high
      refine ⟨group_cons.mpr (Or.inr ⟨by omega, group⟩), ?_⟩
      rw [number_cons, byte, spelled]
      omega

/-- No group that gives a number is shorter than the one that is written for it. -/
theorem groups_shortest {bytes : List UInt8} (group : Group bytes) (more : Nat) :
    (groups more (number bytes)).length ≤ bytes.length := by
  induction bytes generalizing more with
  | nil => exact (not_group_nil group).elim
  | cons b rest ih =>
    cases more with
    | zero => exact Nat.succ_le_succ (Nat.zero_le _)
    | succ more =>
      rw [groups, number_cons]
      split
      · exact Nat.succ_le_succ (Nat.zero_le _)
      · rename_i large
        rcases group_cons.mp group with ⟨_, rfl⟩ | ⟨_, later⟩
        · exact (large (Nat.mod_lt _ (by decide))).elim
        · rw [show (b.toNat % 0x80 + 0x80 * number rest) / 0x80 = number rest by omega]
          exact Nat.succ_le_succ (ih later more)

end Varint

/-! ### Decoders at the front of an input -/

def Reads {α : Type} (d : Decoder α) (bytes : List UInt8) (a : α) : Prop :=
  ∀ rest pos, d ⟨bytes ++ rest, pos⟩ = .ok a ⟨rest, pos + bytes.length⟩

namespace Reads

variable {α β : Type} {d : Decoder α} {f : α → Decoder β} {bytes more : List UInt8} {a : α} {b : β}

theorem pure (a : α) : Reads (pure a) [] a := fun _ _ => rfl

theorem bind (first : Reads d bytes a) (second : Reads (f a) more b) :
    Reads (d >>= f) (bytes ++ more) b := by
  intro rest pos
  rw [List.append_assoc, Decoder.bind_of_ok (first _ _), second, List.length_append, Nat.add_assoc]

/-- A decoder that goes on without further bytes. -/
theorem bind_nil (first : Reads d bytes a) (second : Reads (f a) [] b) : Reads (d >>= f) bytes b := by
  simpa using first.bind second

theorem position {f : Nat → Decoder β} (each : ∀ start, Reads (f start) bytes b) :
    Reads (Decoder.position >>= f) bytes b :=
  fun rest pos => (Decoder.position_bind f _).trans (each pos rest pos)

theorem within {segment : String} (inner : Reads d bytes a) : Reads (Decoder.within segment d) bytes a :=
  fun rest pos => Decoder.within_ok.mpr (inner rest pos)

theorem map {g : α → β} (inner : Reads d bytes a) : Reads (do let a ← d; return g a) bytes (g a) :=
  inner.bind_nil (Reads.pure (g a))

end Reads

namespace Decoder

/-! ### Single bytes -/

theorem byte_reads (b : UInt8) : Reads byte [b] b := fun _ _ => rfl

theorem byte_ok {c c' : Cursor} {b : UInt8} (h : byte c = .ok b c') :
    c.rest = b :: c'.rest ∧ c'.pos = c.pos + 1 := by
  unfold byte at h
  split at h
  · cases h
  · cases h
    exact ⟨‹_›, rfl⟩

theorem exact_reads {bytes : List UInt8} {n : Nat} (length : bytes.length = n) :
    Reads (exact n) bytes bytes := by
  intro rest pos
  subst length
  simp [exact]

theorem exact_ok {n : Nat} {c c' : Cursor} {bytes : List UInt8} (h : exact n c = .ok bytes c') :
    c.rest = bytes ++ c'.rest ∧ bytes.length = n ∧ c'.pos = c.pos + n := by
  unfold exact at h
  simp only at h
  split at h
  · cases h
    exact ⟨(List.take_append_drop n c.rest).symm, ‹_›, rfl⟩
  · cases h

theorem exact_gives (n : Nat) : Gives (fun bytes => bytes.length = n) (exact n) :=
  fun _ _ _ run => (exact_ok run).2.1

/-! ### Varints -/

open Varint (Group number not_group_nil group_cons number_cons)

/-- One group and the choice to go on, without the join point of the checks. -/
theorem varintGroups_succ (start left : Nat) :
    varintGroups start (left + 1) = do
      let b ← byte
      if left = 0 ∧ 1 < b.toNat % 0x80 then throw (.malformed start .varintOverflow)
      else if b.toNat < 0x80 then return b.toNat % 0x80
      else
        let high ← varintGroups start left
        return b.toNat % 0x80 + 0x80 * high := rfl

theorem varintGroups_reads (start : Nat) {left : Nat} {bytes : List UInt8} (group : Group bytes)
    (length : bytes.length ≤ left) (small : number bytes < 2 * Nat.pow 0x80 (left - 1)) :
    Reads (varintGroups start left) bytes (number bytes) := by
  induction bytes generalizing left with
  | nil => exact (not_group_nil group).elim
  | cons b rest ih =>
    obtain ⟨left, rfl⟩ : ∃ more, left = more + 1 := Nat.exists_eq_add_one.mpr (Nat.zero_lt_of_lt length)
    rw [List.length_cons] at length
    rw [Nat.add_sub_cancel, number_cons] at small
    rw [varintGroups_succ, number_cons]
    rcases group_cons.mp group with ⟨ends, rfl⟩ | ⟨goes, later⟩
    · have fits : ¬(left = 0 ∧ 1 < b.toNat % 0x80) := by
        rintro ⟨rfl, excess⟩
        simp only [Nat.pow_eq, Nat.pow_zero] at small
        omega
      refine (byte_reads b).bind_nil ?_
      rw [if_neg fits, if_pos ends]
      exact Reads.pure _
    · obtain ⟨b', rest, rfl⟩ : ∃ b' more, rest = b' :: more :=
        List.exists_cons_of_ne_nil fun empty => not_group_nil (empty ▸ later)
      obtain ⟨more, rfl⟩ : ∃ more, left = more + 1 := ⟨left - 1, by simp at length; omega⟩
      have high : number (b' :: rest) < 2 * Nat.pow 0x80 (more + 1 - 1) := by
        simp only [Nat.pow_eq, Nat.pow_succ, Nat.add_sub_cancel] at small ⊢
        omega
      refine Reads.bind (byte_reads b) ?_
      rw [if_neg (by omega), if_neg goes]
      exact (ih later (Nat.le_of_succ_le_succ length) high).map

theorem varintGroups_ok {start left n : Nat} {c c' : Cursor} (h : varintGroups start left c = .ok n c') :
    ∃ bytes, Group bytes ∧ bytes.length ≤ left ∧ number bytes = n ∧ n < 2 * Nat.pow 0x80 (left - 1) ∧
      c.rest = bytes ++ c'.rest ∧ c'.pos = c.pos + bytes.length := by
  induction left generalizing n c with
  | zero => exact (throw_ok h).elim
  | succ left ih =>
    rw [varintGroups_succ] at h
    obtain ⟨b, c₁, first, h⟩ := bind_ok h
    obtain ⟨front, moved⟩ := byte_ok first
    rw [Nat.add_sub_cancel]
    split at h
    · exact (throw_ok h).elim
    · rename_i low
      split at h
      · rename_i ends
        obtain ⟨rfl, rfl⟩ := pure_ok h
        have spelled : number [b] = b.toNat % 0x80 := by rw [number_cons]; rfl
        have small : b.toNat % 0x80 < 2 * Nat.pow 0x80 left := by
          cases left with
          | zero => simp at low ⊢; omega
          | succ more =>
            have positive : 0 < Nat.pow 0x80 more := Nat.pow_pos (by decide)
            simp only [Nat.pow_eq, Nat.pow_succ] at positive ⊢
            omega
        exact ⟨[b], group_cons.mpr (Or.inl ⟨ends, rfl⟩), Nat.succ_le_succ (Nat.zero_le _), spelled, small, front,
          moved⟩
      · rename_i goes
        obtain ⟨high, c₂, rest, h⟩ := bind_ok h
        obtain ⟨rfl, rfl⟩ := pure_ok h
        obtain ⟨bytes, group, length, rfl, small, later, movedLater⟩ := ih rest
        have whole : b.toNat % 0x80 + 0x80 * number bytes < 2 * Nat.pow 0x80 left := by
          cases left with
          | zero => exact (throw_ok rest).elim
          | succ more =>
            simp only [Nat.pow_eq, Nat.pow_succ, Nat.add_sub_cancel] at small ⊢
            omega
        refine ⟨b :: bytes, group_cons.mpr (Or.inr ⟨goes, group⟩), Nat.succ_le_succ length, number_cons b bytes,
          whole, by rw [front, later]; rfl, ?_⟩
        rw [movedLater, moved, List.length_cons]
        omega

/-- A number up to the bound is read back from what is written for it. -/
theorem varint_reads {n : Nat} (small : n < wordBound) : Reads varint (Varint.ofNat n) n := by
  have same : (UInt64.ofNat n).toNat = n := by simp [wordBound] at small ⊢; omega
  have written : Group (Varint.groups 9 n) ∧ number (Varint.groups 9 n) = n := Varint.groups_spell small
  obtain ⟨group, spelled⟩ := written
  unfold varint Varint.ofNat Varint.encode
  rw [same]
  refine Reads.position fun start => ?_
  have read := varintGroups_reads start group (Varint.groups_length_le 9 n) (spelled.symm ▸ small)
  rwa [spelled] at read

/-- The written form of a number is the shortest that is read as the number. -/
theorem varint_ok {n : Nat} {c c' : Cursor} (h : varint c = .ok n c') :
    n < wordBound ∧ (Varint.ofNat n).length + c'.rest.length ≤ c.rest.length := by
  unfold varint at h
  rw [position_bind] at h
  obtain ⟨bytes, group, _, rfl, small, front, _⟩ := varintGroups_ok h
  have same : (UInt64.ofNat (number bytes)).toNat = number bytes := by simp at small ⊢; omega
  refine ⟨small, ?_⟩
  rw [Varint.ofNat, Varint.encode, same, front, List.length_append]
  exact Nat.add_le_add_right (Varint.groups_shortest group 9) _

theorem varint_gives : Gives (· < wordBound) varint := fun _ _ _ run => (varint_ok run).1

/-! ### Counts -/

theorem count_ok_iff {settings : Settings} {n : Nat} {c c' : Cursor} :
    count settings c = .ok n c' ↔ varint c = .ok n c' ∧ n ≤ settings.maxCollection := by
  unfold count
  rw [position_bind]
  constructor
  · intro h
    obtain ⟨m, c₁, number, h⟩ := bind_ok h
    dsimp only at h
    split at h
    · exact (throw_ok h).elim
    · obtain ⟨rfl, rfl⟩ := pure_ok h
      exact ⟨number, by omega⟩
  · rintro ⟨number, allowed⟩
    rw [bind_of_ok number]
    dsimp only
    rw [if_neg (by omega)]
    rfl

theorem count_reads {settings : Settings} {n : Nat} (small : n < wordBound)
    (allowed : n ≤ settings.maxCollection) : Reads (count settings) (Varint.ofNat n) n :=
  fun rest pos => count_ok_iff.mpr ⟨varint_reads small rest pos, allowed⟩

theorem count_ok {settings : Settings} {n : Nat} {c c' : Cursor} (h : count settings c = .ok n c') :
    n < wordBound ∧ n ≤ settings.maxCollection ∧
      (Varint.ofNat n).length + c'.rest.length ≤ c.rest.length := by
  obtain ⟨number, allowed⟩ := count_ok_iff.mp h
  obtain ⟨small, shorter⟩ := varint_ok number
  exact ⟨small, allowed, shorter⟩

theorem count_gives (settings : Settings) : Gives (· < wordBound) (count settings) :=
  fun _ _ _ run => (count_ok run).1

/-! ### Fixed widths -/

end Decoder

theorem littleEndian_length (width n : Nat) : (littleEndian width n).length = width := by
  induction width generalizing n with
  | zero => rfl
  | succ width ih => rw [littleEndian, List.length_cons, ih]

/-- A number that is too large for its bytes loses what is above them. -/
theorem ofLittleEndian_littleEndian_mod (width n : Nat) :
    ofLittleEndian (littleEndian width n) = n % Nat.pow 0x100 width := by
  induction width generalizing n with
  | zero => simp [littleEndian, ofLittleEndian, Nat.mod_one]
  | succ width ih =>
    simp only [Nat.pow_eq] at ih ⊢
    rw [littleEndian, ofLittleEndian, ih, Nat.pow_succ', Nat.mod_mul]
    simp

theorem ofLittleEndian_littleEndian {width n : Nat} (small : n < Nat.pow 0x100 width) :
    ofLittleEndian (littleEndian width n) = n := by
  rw [ofLittleEndian_littleEndian_mod, Nat.mod_eq_of_lt small]

theorem littleEndian_ofLittleEndian (bytes : List UInt8) :
    littleEndian bytes.length (ofLittleEndian bytes) = bytes := by
  induction bytes with
  | nil => rfl
  | cons b bytes ih =>
    have low : UInt8.ofNat (b.toNat + 0x100 * ofLittleEndian bytes) = b := by
      apply UInt8.toNat_inj.mp
      simp
    have high : (b.toNat + 0x100 * ofLittleEndian bytes) / 0x100 = ofLittleEndian bytes := by
      have := b.toNat_lt
      omega
    rw [List.length_cons, littleEndian, ofLittleEndian, low, high, ih]

theorem ofLittleEndian_lt (bytes : List UInt8) : ofLittleEndian bytes < Nat.pow 0x100 bytes.length := by
  induction bytes with
  | nil => exact Nat.one_pos
  | cons b bytes ih =>
    have := b.toNat_lt
    simp only [Nat.pow_eq, Nat.pow_succ, ofLittleEndian, List.length_cons] at ih ⊢
    omega

namespace Decoder

theorem fixedWidth_reads {width n : Nat} (small : n < Nat.pow 0x100 width) :
    Reads (fixedWidth width) (littleEndian width n) n := by
  unfold fixedWidth
  refine (exact_reads (littleEndian_length width n)).bind_nil ?_
  rw [ofLittleEndian_littleEndian small]
  exact Reads.pure n

theorem fixedWidth_ok {width n : Nat} {c c' : Cursor} (h : fixedWidth width c = .ok n c') :
    width + c'.rest.length = c.rest.length := by
  unfold fixedWidth at h
  obtain ⟨bytes, _, taken, h⟩ := bind_ok h
  obtain ⟨_, rfl⟩ := pure_ok h
  obtain ⟨split, length, _⟩ := exact_ok taken
  rw [split, List.length_append, length]

end Decoder

end TrackedRecord.Wire
