import Mathlib.Tactic.IntervalCases
import TrackedRecord.Proofs.FieldBits.Booleans
import TrackedRecord.Proofs.Wire.Varint

/-!
# Where packed bits stand

Bit `i` of a set is bit `i % 64` of word `i / 64` in memory and bit `i % 8` of byte `i / 8` when packed. The
bytes into which the set bits are stored one after another are the packed ones, and what is read are exactly
bytes without a bit beyond the last, behind a spelling of their number of bits.
-/

namespace TrackedRecord.Wire

/-- Bytes are told apart by their bits. -/
theorem eq_of_packedBit {a b : List UInt8} (length : a.length = b.length)
    (same : ∀ i, packedBit a i = packedBit b i) : a = b := by
  apply List.ext_getElem length
  intro k insideA insideB
  apply UInt8.toNat_inj.mp
  apply Nat.eq_of_testBit_eq
  intro j
  by_cases small : j < 8
  · have bit := same (8 * k + j)
    rwa [packedBit, packedBit, show (8 * k + j) / 8 = k by omega, show (8 * k + j) % 8 = j by omega,
      List.getD_eq_getElem _ _ insideA, List.getD_eq_getElem _ _ insideB] at bit
  · have power : 2 ^ 8 ≤ 2 ^ j := Nat.pow_le_pow_right (by decide) (Nat.not_lt.mp small)
    rw [Nat.testBit_lt_two_pow (Nat.lt_of_lt_of_le a[k].toNat_lt power),
      Nat.testBit_lt_two_pow (Nat.lt_of_lt_of_le b[k].toNat_lt power)]

/-! ### Storing bits -/

/-- The bytes with bit `i` set. -/
def storeBit (packed : List UInt8) (i : Nat) : List UInt8 :=
  packed.modify (i / 8) fun b => b ||| 1 <<< UInt8.ofNat (i % 8)

theorem storeBit_length (packed : List UInt8) (i : Nat) : (storeBit packed i).length = packed.length := by
  simp [storeBit]

theorem testBit_storeBit (b : UInt8) {shift : Nat} (small : shift < 8) (j : Nat) :
    (b ||| 1 <<< UInt8.ofNat shift).toNat.testBit j = (b.toNat.testBit j || decide (shift = j)) := by
  have amount : (UInt8.ofNat shift).toNat % 8 = shift := by
    rw [UInt8.toNat_ofNat_of_lt' (Nat.lt_trans small (by decide)), Nat.mod_eq_of_lt small]
  have one : (1 <<< UInt8.ofNat shift : UInt8).toNat = 2 ^ shift := by
    rw [UInt8.toNat_shiftLeft, amount, UInt8.toNat_one, Nat.one_shiftLeft,
      Nat.mod_eq_of_lt (Nat.pow_lt_pow_right (by decide) small)]
  rw [UInt8.toNat_or, Nat.testBit_or, one, Nat.testBit_two_pow]

theorem packedBit_storeBit {packed : List UInt8} {i : Nat} (inside : i / 8 < packed.length) (j : Nat) :
    packedBit (storeBit packed i) j = (packedBit packed j || decide (i = j)) := by
  have byte : (storeBit packed i).getD (j / 8) 0 =
      if i / 8 = j / 8 then packed.getD (j / 8) 0 ||| 1 <<< UInt8.ofNat (i % 8) else packed.getD (j / 8) 0 := by
    simp only [storeBit, List.getD_eq_getElem?_getD, List.getElem?_modify]
    split
    · rename_i same
      simp [← same, inside]
    · simp
  rw [packedBit, byte, packedBit]
  split
  · rw [testBit_storeBit _ (Nat.mod_lt i (by decide))]
    congr 2
    rw [eq_iff_iff]
    omega
  · have different : i ≠ j := by
      rintro rfl
      contradiction
    simp [different]

theorem packedBit_foldl_storeBit {packed : List UInt8} {positions : List Nat}
    (inside : ∀ i ∈ positions, i / 8 < packed.length) (j : Nat) :
    (positions.foldl storeBit packed).length = packed.length ∧
      packedBit (positions.foldl storeBit packed) j = (packedBit packed j || decide (j ∈ positions)) := by
  induction positions generalizing packed with
  | nil => simp
  | cons i rest ih =>
    rw [List.forall_mem_cons] at inside
    have insideRest : ∀ k ∈ rest, k / 8 < (storeBit packed i).length := by
      simpa only [storeBit_length] using inside.2
    obtain ⟨length, later⟩ := ih insideRest
    rw [List.foldl_cons, length, storeBit_length, later, packedBit_storeBit inside.1, Bool.or_assoc]
    simp [eq_comm]

/-- The set bits stored one after another into bytes of zeros. -/
theorem foldl_storeBit_ones (bits : FieldBits) :
    bits.ones.foldl storeBit (List.replicate (packedLength bits.len) 0) = packedBytes bits := by
  have inside : ∀ i ∈ bits.ones, i / 8 < (List.replicate (packedLength bits.len) (0 : UInt8)).length := by
    intro i member
    have := FieldBits.lt_of_get (FieldBits.mem_ones.mp member)
    rw [List.length_replicate, packedLength]
    omega
  have zeros (i : Nat) : packedBit (List.replicate (packedLength bits.len) 0) i = false := by
    rw [packedBit, List.getD_eq_getElem?_getD, List.getElem?_replicate]
    split <;> simp
  apply eq_of_packedBit
  · rw [(packedBit_foldl_storeBit inside 0).1, List.length_replicate, packedBytes_length]
  · intro i
    rw [(packedBit_foldl_storeBit inside i).2, zeros, packedBit_packedBytes, Bool.false_or, Bool.eq_iff_iff,
      decide_eq_true_iff, FieldBits.mem_ones]

namespace Checked

/-- The bytes with bit `i` set, by checked indices and shifts. -/
def packBit (packed : List UInt8) (i : Nat) : Checked (List UInt8) := do
  let b ← index packed (i / 8)
  let shift ← amount 8 (i % 8)
  put packed (i / 8) (b ||| 1 <<< UInt8.ofNat shift)

/-- The packed bytes of a set, into which each set bit is stored. -/
def pack (bits : FieldBits) : Checked (List UInt8) := do
  let positions ← ones bits
  positions.foldlM packBit (List.replicate (packedLength bits.len) 0)

theorem packBit_eq {packed : List UInt8} {i : Nat} (inside : i / 8 < packed.length) :
    packBit packed i = pure (storeBit packed i) := by
  rw [packBit, index_eq (List.getElem?_eq_getElem inside), pure_bind, amount_eq (Nat.mod_lt i (by decide)),
    pure_bind, put_eq inside, storeBit, List.modify_eq_set_get _ inside]
  rfl

theorem foldlM_packBit {packed : List UInt8} {positions : List Nat}
    (inside : ∀ i ∈ positions, i / 8 < packed.length) :
    positions.foldlM packBit packed = pure (positions.foldl storeBit packed) := by
  induction positions generalizing packed with
  | nil => rfl
  | cons i rest ih =>
    rw [List.forall_mem_cons] at inside
    rw [List.foldlM_cons, packBit_eq inside.1, pure_bind,
      ih (by simpa only [storeBit_length] using inside.2)]
    rfl

theorem pack_eq {bits : FieldBits} (formed : bits.WellFormed) : pack bits = pure (packedBytes bits) := by
  rw [pack, ones_eq formed, pure_bind, foldlM_packBit, foldl_storeBit_ones]
  intro i member
  have := FieldBits.lt_of_get (FieldBits.mem_ones.mp member)
  rw [List.length_replicate, packedLength]
  omega

end Checked

/-! ### Reading bits -/

/-- The spelling of a number of bits within the limit, and as many bytes as hold them, with no bit from there
on. -/
structure Packs (limit n : Nat) (number packed : List UInt8) : Prop where
  number : Varint.Spells number n
  limit : n ≤ limit
  length : packed.length = packedLength n
  padding : ∀ i, n ≤ i → packedBit packed i = false

theorem get_unpacked {n : Nat} {packed : List UInt8} {i : Nat} (inside : i < n) :
    (unpacked n packed).get i = packedBit packed i := by
  rw [unpacked, FieldBits.get_ofBools, List.getD_eq_getElem?_getD, List.getElem?_map, List.getElem?_range inside]
  rfl

namespace Decoder

theorem bits_ok_iff {settings : Settings} {c c' : Cursor} {bits : FieldBits} :
    Decoder.bits settings c = .ok bits c' ↔
      ∃ n number packed, Packs settings.maxCollection n number packed ∧ bits = unpacked n packed ∧
        c.rest = number ++ packed ++ c'.rest ∧ c'.pos = c.pos + (number ++ packed).length := by
  constructor
  · intro h
    obtain ⟨n, c₁, counted, h⟩ := bind_ok h
    obtain ⟨run, allowed⟩ := count_ok_iff.mp counted
    obtain ⟨number, spells, front, moved⟩ := varint_ok_iff.mp run
    obtain ⟨packed, length, padding, same, later, movedLater⟩ := packedBits_ok h
    refine ⟨n, number, packed, ⟨spells, allowed, length, padding⟩, same, ?_, ?_⟩
    · rw [front, later, List.append_assoc]
    · rw [movedLater, moved, List.length_append, Nat.add_assoc]
  · rintro ⟨n, number, packed, packs, rfl, front, moved⟩
    have counted : count settings c = .ok n ⟨packed ++ c'.rest, c.pos + number.length⟩ :=
      count_ok_iff.mpr ⟨varint_ok_iff.mpr ⟨number, packs.number, by rw [front, List.append_assoc], rfl⟩, packs.limit⟩
    have run := packedBits_reads packs.length packs.padding c'.rest (c.pos + number.length)
    rw [Decoder.bits, bind_of_ok counted, run, Nat.add_assoc, ← List.length_append, ← moved]

end Decoder

theorem encodeBits_packs {limit : Nat} {bits : FieldBits} (small : bits.len < wordBound) (allowed : bits.len ≤ limit) :
    Packs limit bits.len (Varint.ofNat bits.len) (packedBytes bits) where
  number := by
    have same : (UInt64.ofNat bits.len).toNat = bits.len := UInt64.toNat_ofNat_of_lt' small
    have spells := Varint.encode_spells (UInt64.ofNat bits.len)
    rwa [same] at spells
  limit := allowed
  length := packedBytes_length bits
  padding i beyond := (packedBit_packedBytes bits i).trans (FieldBits.get_of_le beyond)

/-! ### Main result -/

namespace Decoder

/-- A bit set that was come by in whatever way is written as its number of bits and the bytes into which its set
bits are stored, and read back from them, whatever follows. Reading succeeds exactly if a spelling of a number
within the limit is at the front, with as many bytes behind it as hold so many bits and no bit beyond them; the
set has that many bits, each where it stands in the bytes. Reading with every index and shift checked does the
same. -/
theorem bits_iff_packed (settings : Settings) :
    (∀ course : FieldBits.Course, course.bits.len < wordBound → course.bits.len ≤ settings.maxCollection →
      (∃ packed, Checked.pack course.bits = pure packed ∧
        encodeBits course.bits = Varint.ofNat course.bits.len ++ packed) ∧
        ∀ suffix pos, Decoder.bits settings ⟨encodeBits course.bits ++ suffix, pos⟩ =
          .ok course.bits ⟨suffix, pos + (encodeBits course.bits).length⟩) ∧
      (∀ c, (∃ bits c', Decoder.bits settings c = .ok bits c') ↔
        ∃ n number packed rest, Packs settings.maxCollection n number packed ∧
          c.rest = number ++ packed ++ rest) ∧
      (∀ n number packed rest pos, Packs settings.maxCollection n number packed →
        ∃ bits, Decoder.bits settings ⟨number ++ packed ++ rest, pos⟩ =
            .ok bits ⟨rest, pos + (number ++ packed).length⟩ ∧
          bits.WellFormed ∧ bits.len = n ∧ ∀ i, i < n → bits.get i = packedBit packed i) ∧
      ∀ size, Refines size (Checked.bits settings) (Decoder.bits settings) := by
  refine ⟨fun course small allowed => ?_, fun c => ?_, fun n number packed rest pos packs => ?_,
    fun size => Checked.bits_refines⟩
  · have formed := course.follows.1
    refine ⟨⟨packedBytes course.bits, Checked.pack_eq formed, rfl⟩, fun suffix pos => ?_⟩
    exact bits_ok_iff.mpr ⟨_, _, _, encodeBits_packs small allowed, (unpacked_packedBytes formed).symm, rfl, rfl⟩
  · constructor
    · rintro ⟨bits, c', run⟩
      obtain ⟨n, number, packed, packs, _, front, _⟩ := bits_ok_iff.mp run
      exact ⟨n, number, packed, c'.rest, packs, front⟩
    · rintro ⟨n, number, packed, rest, packs, front⟩
      exact ⟨unpacked n packed, ⟨rest, _⟩, bits_ok_iff.mpr ⟨n, number, packed, packs, rfl, front, rfl⟩⟩
  · exact ⟨unpacked n packed, bits_ok_iff.mpr ⟨n, number, packed, packs, rfl, rfl, rfl⟩,
      FieldBits.ofBools_wellFormed _, unpacked_len n packed, fun i => get_unpacked⟩

/-- A set of three words, and three bits behind a spelling of their number that is longer than needed. -/
theorem bits_iff_packed_scattered :
    Decoder.bits {} ⟨encodeBits FieldBits.Course.scattered.bits ++ [0x2A], 0⟩ =
        .ok FieldBits.Course.scattered.bits ⟨[0x2A], 19⟩ ∧
      Packs 4 3 [0x83, 0x00] [0x05] ∧
        ∃ bits, Decoder.bits { maxCollection := 4 } ⟨[0x83, 0x00, 0x05, 0x2A], 7⟩ = .ok bits ⟨[0x2A], 10⟩ ∧
          bits.toBools = [true, false, true] := by
  have short : FieldBits.Course.scattered.bits.len = 130 := by decide +kernel
  have small : FieldBits.Course.scattered.bits.len < wordBound := by rw [short]; decide
  have allowed : FieldBits.Course.scattered.bits.len ≤ ({} : Settings).maxCollection := by rw [short]; decide
  have packs : Packs 4 3 [0x83, 0x00] [0x05] := by
    refine ⟨⟨⟨[0x83], 0x00, rfl, List.forall_mem_singleton.mpr rfl, rfl⟩, by decide, rfl, by decide⟩, by decide, rfl,
      fun i beyond => ?_⟩
    by_cases first : i < 8
    · interval_cases i <;> rfl
    · rw [packedBit, List.getD_eq_default _ _ (by simp; omega)]
      exact Nat.zero_testBit _
  obtain ⟨written, _, _⟩ := bits_iff_packed {}
  obtain ⟨_, _, read, _⟩ := bits_iff_packed { maxCollection := 4 }
  obtain ⟨bits, run, _, len, get⟩ := read 3 [0x83, 0x00] [0x05] [0x2A] 7 packs
  have back := (written FieldBits.Course.scattered small allowed).2 [0x2A] 0
  have length : (encodeBits FieldBits.Course.scattered.bits).length = 19 := by decide +kernel
  refine ⟨by rwa [length] at back, packs, bits, run, ?_⟩
  rw [FieldBits.toBools, len, List.map_congr_left fun i member => get i (List.mem_range.mp member)]
  decide

end Decoder

end TrackedRecord.Wire
