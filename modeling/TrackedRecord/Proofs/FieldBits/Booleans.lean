import Mathlib.Data.List.Basic
import Mathlib.Data.List.GetD
import TrackedRecord.Proofs.FieldBits
import TrackedRecord.Proofs.Value.Hash

/-!
# Bit sets as vectors of Booleans

Editing a bit set edits the vector of its bits in the same way, and whatever is asked of a well-formed set
is answered by that vector: also what is counted, compared and hashed over whole words, since no bit beyond
the length is ever set.
-/

namespace TrackedRecord.FieldBits

section

variable {bits : FieldBits}

@[simp] theorem toBools_length (bits : FieldBits) : bits.toBools.length = bits.len := by
  simp [toBools]

theorem toBools_getD (bits : FieldBits) (i : Nat) : bits.toBools.getD i false = bits.get i := by
  rw [toBools, List.getD_eq_getElem?_getD, List.getElem?_map]
  by_cases inside : i < bits.len
  · simp [inside]
  · simp [inside, get_of_le (Nat.not_lt.mp inside)]

theorem toBools_eq {bools : List Bool} (len : bits.len = bools.length)
    (get : ∀ i, bits.get i = bools.getD i false) : bits.toBools = bools := by
  apply List.ext_getElem (by rw [toBools_length, len])
  intro i inside insideBools
  have same := (toBools_getD bits i).trans (get i)
  rwa [List.getD_eq_getElem _ _ inside, List.getD_eq_getElem _ _ insideBools] at same

theorem toBools_ofBools (bools : List Bool) : (ofBools bools).toBools = bools :=
  toBools_eq (ofBools_len bools) (get_ofBools bools)

theorem new_eq_ofBools (len : Nat) : new len = ofBools (List.replicate len false) := by
  apply ext (new_wellFormed len) (ofBools_wellFormed _)
  · rw [new_len, ofBools_len, List.length_replicate]
  · intro i
    rw [get_new, get_ofBools, List.getD_eq_getElem?_getD, List.getElem?_replicate]
    split <;> rfl

/-- Well-formed sets are as equal as their vectors. -/
theorem WellFormed.eq_iff {other : FieldBits} (formed : bits.WellFormed) (formedOther : other.WellFormed) :
    bits = other ↔ bits.toBools = other.toBools := by
  constructor
  · rintro rfl
    rfl
  · intro same
    rw [← ofBools_toBools formed, same, ofBools_toBools formedOther]

/-! ### Edits -/

/-- A change to a bit set. Positions may lie outside of it. -/
inductive Edit where
  | set (i : Nat)
  | unset (i : Nat)
  | setAll
  | clearAll
  deriving DecidableEq, Repr

def Edit.apply (bits : FieldBits) : Edit → FieldBits
  | .set i => bits.set i
  | .unset i => bits.unset i
  | .setAll => bits.setAll
  | .clearAll => bits.clearAll

/-- The same change to a vector of Booleans, of which a position outside changes nothing. -/
def Edit.applyBools (bools : List Bool) : Edit → List Bool
  | .set i => bools.set i true
  | .unset i => bools.set i false
  | .setAll => List.replicate bools.length true
  | .clearAll => List.replicate bools.length false

theorem getD_set (bools : List Bool) (i j : Nat) (b : Bool) :
    (bools.set i b).getD j false = if i = j ∧ j < bools.length then b else bools.getD j false := by
  rw [List.getD_eq_getElem?_getD, List.getD_eq_getElem?_getD, List.getElem?_set]
  by_cases here : i = j
  · subst here
    by_cases inside : i < bools.length
    · simp [inside]
    · simp [inside]
  · simp [here]

theorem getD_replicate (n j : Nat) (b : Bool) :
    (List.replicate n b).getD j false = (decide (j < n) && b) := by
  rw [List.getD_eq_getElem?_getD, List.getElem?_replicate]
  by_cases inside : j < n
  · simp [inside]
  · simp [inside]

theorem WellFormed.toBools_set (formed : bits.WellFormed) (i : Nat) :
    (bits.set i).toBools = bits.toBools.set i true := by
  apply toBools_eq (by simp)
  intro j
  rw [getD_set, toBools_getD, toBools_length]
  by_cases inside : i < bits.len
  · rw [formed.get_set inside]
    by_cases here : i = j
    · simp [← here, inside]
    · simp [here]
  · have outside : ¬(i = j ∧ j < bits.len) := by omega
    rw [FieldBits.set, if_neg inside, if_neg outside]

theorem WellFormed.toBools_unset (formed : bits.WellFormed) (i : Nat) :
    (bits.unset i).toBools = bits.toBools.set i false := by
  apply toBools_eq (by simp)
  intro j
  rw [getD_set, toBools_getD, toBools_length, formed.get_unset]
  by_cases here : i = j
  · subst here
    by_cases inside : i < bits.len
    · simp [inside]
    · simp [inside, get_of_le (Nat.not_lt.mp inside)]
  · simp [here]

theorem WellFormed.toBools_setAll (formed : bits.WellFormed) :
    bits.setAll.toBools = List.replicate bits.toBools.length true := by
  apply toBools_eq (by simp [formed.setAll.2])
  intro j
  rw [getD_replicate, toBools_length, Bool.and_true]
  by_cases inside : j < bits.len
  · rw [formed.get_setAll inside, decide_eq_true inside]
  · rw [get_of_le (by rw [formed.setAll.2]; omega), decide_eq_false inside]

theorem toBools_clearAll (bits : FieldBits) :
    bits.clearAll.toBools = List.replicate bits.toBools.length false := by
  apply toBools_eq (by simp [clearAll])
  intro j
  rw [getD_replicate, get_clearAll, Bool.and_false]

/-- One edit of the words is one edit of the vector. -/
theorem WellFormed.apply (formed : bits.WellFormed) (edit : Edit) :
    (edit.apply bits).WellFormed ∧ (edit.apply bits).toBools = edit.applyBools bits.toBools := by
  cases edit with
  | set i => exact ⟨formed.set i, formed.toBools_set i⟩
  | unset i => exact ⟨formed.unset i, formed.toBools_unset i⟩
  | setAll => exact ⟨formed.setAll.1, formed.toBools_setAll⟩
  | clearAll => exact ⟨formed.clearAll, toBools_clearAll bits⟩

theorem WellFormed.foldl_apply (formed : bits.WellFormed) (edits : List Edit) :
    (edits.foldl Edit.apply bits).WellFormed ∧
      (edits.foldl Edit.apply bits).toBools = edits.foldl Edit.applyBools bits.toBools := by
  induction edits generalizing bits with
  | nil => exact ⟨formed, rfl⟩
  | cons edit rest ih =>
    obtain ⟨formedNext, next⟩ := formed.apply edit
    rw [List.foldl_cons, List.foldl_cons, ← next]
    exact ih formedNext

end

/-- How a bit set begins: with clear bits or with given ones. -/
inductive Origin where
  | new (len : Nat)
  | ofBools (bools : List Bool)
  deriving DecidableEq, Repr

def Origin.bits : Origin → FieldBits
  | .new len => FieldBits.new len
  | .ofBools bools => FieldBits.ofBools bools

def Origin.bools : Origin → List Bool
  | .new len => List.replicate len false
  | .ofBools bools => bools

theorem Origin.bits_eq (origin : Origin) : origin.bits = FieldBits.ofBools origin.bools := by
  cases origin with
  | new len => exact new_eq_ofBools len
  | ofBools bools => rfl

/-- A way to a bit set. -/
structure Course where
  origin : Origin
  edits : List Edit
  deriving DecidableEq, Repr

def Course.bits (course : Course) : FieldBits := course.edits.foldl Edit.apply course.origin.bits

def Course.bools (course : Course) : List Bool := course.edits.foldl Edit.applyBools course.origin.bools

theorem Course.follows (course : Course) : course.bits.WellFormed ∧ course.bits.toBools = course.bools := by
  have start := (ofBools_wellFormed course.origin.bools).foldl_apply course.edits
  rwa [toBools_ofBools, ← Origin.bits_eq] at start

/-! ### Questions -/

section

variable {bits : FieldBits}

/-- The bits of words one after another, each counted by itself. -/
theorem foldl_countP (words : List (BitVec 64)) (n : Nat) :
    words.foldl (fun n word => n + (List.range 64).countP word.getLsbD) n =
      n + (List.range (64 * words.length)).countP fun i => (words.getD (i / 64) 0).getLsbD (i % 64) := by
  induction words generalizing n with
  | nil => rfl
  | cons word rest ih =>
    have first : (List.range 64).countP (fun i => ((word :: rest).getD (i / 64) 0).getLsbD (i % 64)) =
        (List.range 64).countP word.getLsbD := by
      apply List.countP_congr
      intro i member
      have small := List.mem_range.mp member
      rw [Nat.div_eq_of_lt small, Nat.mod_eq_of_lt small, List.getD_cons_zero]
    have later (i : Nat) : (64 + i) / 64 = i / 64 + 1 ∧ (64 + i) % 64 = i % 64 := by omega
    rw [List.foldl_cons, ih, List.length_cons, Nat.mul_succ, Nat.add_comm (64 * rest.length), List.range_add,
      List.countP_append, first, List.countP_map, Nat.add_assoc]
    simp only [Function.comp_def, later, List.getD_cons_succ]

theorem WellFormed.count_eq (formed : bits.WellFormed) : bits.count = bits.toBools.count true := by
  have room : 64 * bits.words.length = bits.len + (64 * bits.words.length - bits.len) := by
    rw [formed.words]
    omega
  have clear : ((List.range (64 * bits.words.length - bits.len)).map (bits.len + ·)).countP bits.get = 0 := by
    rw [List.countP_map, List.countP_eq_zero]
    intro i _
    simp [get_of_le (Nat.le_add_right bits.len i)]
  rw [count, foldl_countP, Nat.zero_add, toBools, List.count, List.countP_map, room, List.range_add]
  simp only [formed.word]
  rw [List.countP_append, clear, Nat.add_zero]
  exact List.countP_congr fun i _ => by simp

theorem exists_of_ne_zero {word : BitVec 64} (different : word ≠ 0) : ∃ j, j < 64 ∧ word.getLsbD j = true := by
  by_contra none
  apply different
  apply BitVec.eq_of_getLsbD_eq
  intro j small
  rw [BitVec.ofNat_eq_ofNat, BitVec.getLsbD_zero]
  exact Bool.eq_false_iff.mpr fun isSet => none ⟨j, small, isSet⟩

theorem WellFormed.any_iff (formed : bits.WellFormed) : bits.any = true ↔ ∃ i, bits.get i = true := by
  rw [any, List.any_eq_true]
  constructor
  · rintro ⟨word, member, different⟩
    obtain ⟨k, inside, rfl⟩ := List.mem_iff_getElem.mp member
    obtain ⟨j, small, isSet⟩ := exists_of_ne_zero (bne_iff_ne.mp different)
    refine ⟨64 * k + j, ?_⟩
    rw [← formed.word, show (64 * k + j) / 64 = k by omega, show (64 * k + j) % 64 = j by omega,
      List.getD_eq_getElem _ _ inside, isSet]
  · rintro ⟨i, isSet⟩
    have inside : i / 64 < bits.words.length := by
      have := lt_of_get isSet
      rw [formed.words]
      omega
    refine ⟨bits.words[i / 64], List.getElem_mem inside, bne_iff_ne.mpr ?_⟩
    intro zero
    rw [← formed.word, List.getD_eq_getElem _ _ inside, zero] at isSet
    simp at isSet

theorem WellFormed.any_eq (formed : bits.WellFormed) : bits.any = bits.toBools.contains true := by
  rw [Bool.eq_iff_iff, formed.any_iff, List.contains_iff_mem, toBools, List.mem_map]
  constructor
  · rintro ⟨i, isSet⟩
    exact ⟨i, List.mem_range.mpr (lt_of_get isSet), isSet⟩
  · rintro ⟨i, _, isSet⟩
    exact ⟨i, isSet⟩

theorem idxsOf_map_range (f : Nat → Bool) (n : Nat) :
    ((List.range n).map f).idxsOf true = (List.range n).filter f := by
  induction n with
  | zero => rfl
  | succ n ih =>
    rw [List.idxsOf] at ih ⊢
    rw [List.range_succ, List.map_append, List.findIdxs_append, ih, List.filter_append, List.length_map,
      List.length_range]
    cases last : f n <;> simp [last]

theorem ones_eq (bits : FieldBits) : bits.ones = bits.toBools.idxsOf true :=
  (idxsOf_map_range bits.get bits.len).symm

theorem isEmpty_eq (bits : FieldBits) : bits.isEmpty = bits.toBools.isEmpty := by
  rw [Bool.eq_iff_iff, isEmpty, beq_iff_eq, List.isEmpty_iff_length_eq_zero, toBools_length]

end

/-- What is seen of a bit set is what is seen of a vector of Booleans, and its words hold nothing else. -/
structure Shows (bits : FieldBits) (bools : List Bool) : Prop where
  formed : bits.WellFormed
  len : bits.len = bools.length
  isEmpty : bits.isEmpty = bools.isEmpty
  get : ∀ i, bits.get i = bools.getD i false
  toBools : bits.toBools = bools
  count : bits.count = bools.count true
  any : bits.any = bools.contains true
  ones : bits.ones = bools.idxsOf true

theorem WellFormed.shows {bits : FieldBits} (formed : bits.WellFormed) : bits.Shows bits.toBools where
  formed := formed
  len := (toBools_length bits).symm
  isEmpty := isEmpty_eq bits
  get i := (toBools_getD bits i).symm
  toBools := rfl
  count := formed.count_eq
  any := formed.any_eq
  ones := ones_eq bits

/-! ### Equality and hashing -/

/-- What a bit set hands to a hash: its words after their number, and its length. -/
def content (bits : FieldBits) : List Value.Atom :=
  .length bits.words.length ::
    ((bits.words.map fun word => .word64 (UInt64.ofBitVec word)) ++ [.index bits.len])

section

open Value (Atom Meets Splits)

variable {τ : Type} {valid : Atom → Prop} {feed : Atom → List τ}

theorem splits_words (free : Atom.PrefixFree valid feed) {words words' : List (BitVec 64)}
    (length : words.length = words'.length) {xs ys : List Atom} {s t : List τ}
    (meets : Meets valid feed ((words.map fun word => Atom.word64 (UInt64.ofBitVec word)) ++ xs) s
      ((words'.map fun word => Atom.word64 (UInt64.ofBitVec word)) ++ ys) t) :
    words = words' ∧ Meets valid feed xs s ys t := by
  induction words generalizing words' with
  | nil =>
    obtain rfl := List.eq_nil_of_length_eq_zero length.symm
    exact ⟨rfl, meets⟩
  | cons word rest ih =>
    cases words' with
    | nil => cases length
    | cons word' rest' =>
      rw [List.map_cons, List.map_cons, List.cons_append, List.cons_append] at meets
      obtain ⟨first, meets⟩ := meets.cons free (.word64 _ _)
      obtain ⟨others, last⟩ := ih (Nat.succ.inj length) meets
      exact ⟨by rw [UInt64.ofBitVec.inj (Atom.word64.inj first), others], last⟩

theorem splits (free : Atom.PrefixFree valid feed) (bits : FieldBits) :
    Splits valid feed content (fun a b => decide (a = b)) bits := by
  intro other xs ys s t meets
  simp only [content, List.cons_append, List.append_assoc, List.nil_append] at meets
  obtain ⟨lengths, meets⟩ := meets.cons free (.length _ _)
  obtain ⟨words, meets⟩ := splits_words free (Atom.length.inj lengths) meets
  obtain ⟨len, meets⟩ := meets.cons free (.index _ _)
  refine ⟨decide_eq_true ?_, meets⟩
  change (⟨bits.words, bits.len⟩ : FieldBits) = ⟨other.words, other.len⟩
  rw [words, Atom.index.inj len]

end

/-- Words of a set are no more than its bits. -/
theorem WellFormed.content_fits {bits : FieldBits} (formed : bits.WellFormed)
    (small : bits.len < Wire.wordBound) : ∀ atom ∈ content bits, atom.Fits := by
  have words : bits.words.length < Wire.wordBound := by
    rw [formed.words]
    simp only [Wire.wordBound] at small ⊢
    omega
  intro atom member
  rw [content, List.mem_cons, List.mem_append, List.mem_map, List.mem_singleton] at member
  rcases member with rfl | ⟨word, _, rfl⟩ | rfl
  · exact words
  · trivial
  · exact small

/-- Two bit sets are as equal as two vectors of Booleans, and are hashed alike only then: piece by piece, and
as the stream that the pieces are fed as, whatever follows them. -/
structure Compares (a b : FieldBits) (as bs : List Bool) : Prop where
  equal : a = b ↔ as = bs
  hashed : content a = content b ↔ as = bs
  fed : ∀ {τ : Type} {valid : Value.Atom → Prop} {feed : Value.Atom → List τ},
    Value.Atom.PrefixFree valid feed → (∀ atom ∈ content a, valid atom) → (∀ atom ∈ content b, valid atom) →
      ∀ s t : List τ, (content a).flatMap feed ++ s = (content b).flatMap feed ++ t ↔ as = bs ∧ s = t

theorem WellFormed.compares {a b : FieldBits} (formedA : a.WellFormed) (formedB : b.WellFormed) :
    Compares a b a.toBools b.toBools := by
  have equal := formedA.eq_iff formedB
  have hashes (same : decide (a = b) = true) : content a = content b := by rw [of_decide_eq_true same]
  refine ⟨equal, ?_, fun free left right s t => ?_⟩
  · rw [(splits Value.prefixFree_pure a).hashed_iff hashes, decide_eq_true_iff, equal]
  · rw [(splits free a).fed_iff hashes left right, decide_eq_true_iff, equal]

/-! ### Main result -/

theorem Edit.applyBools_length (bools : List Bool) (edit : Edit) :
    (edit.applyBools bools).length = bools.length := by
  cases edit <;> simp [applyBools]

theorem foldl_applyBools_length (bools : List Bool) (edits : List Edit) :
    (edits.foldl Edit.applyBools bools).length = bools.length := by
  induction edits generalizing bools with
  | nil => rfl
  | cons edit rest ih => rw [List.foldl_cons, ih, Edit.applyBools_length]

/-- However a bit set was come by, it shows what the vector of Booleans shows that was come by in the same way,
which is as long as at the beginning; and two sets are equal, and hashed alike, exactly if their vectors are
equal, whatever led to them. -/
theorem edited_as_bools (course other : Course) :
    course.bits.Shows course.bools ∧ course.bools.length = course.origin.bools.length ∧
      Compares course.bits other.bits course.bools other.bools := by
  obtain ⟨formed, bools⟩ := course.follows
  obtain ⟨formedOther, boolsOther⟩ := other.follows
  rw [← bools, ← boolsOther]
  exact ⟨formed.shows, bools ▸ foldl_applyBools_length _ _, formed.compares formedOther⟩

namespace Course

/-- Bits on both sides of the ends of words, one of them taken back, and two positions outside. -/
def scattered : Course :=
  ⟨.new 130, [.set 0, .set 63, .set 64, .set 129, .unset 63, .set 130, .unset 1000]⟩

def emptied : Course := ⟨.ofBools (List.replicate 130 true), [.clearAll, .set 129, .set 64, .set 0]⟩

end Course

/-- Two ways to the same set, which holds three bits. -/
theorem edited_as_bools_scattered :
    Course.scattered.bits = Course.emptied.bits ∧ Course.scattered.bits.ones = [0, 64, 129] ∧
      Course.scattered.bits.count = 3 ∧
        (content Course.scattered.bits).flatMap Value.Atom.spelled =
          (content Course.emptied.bits).flatMap Value.Atom.spelled := by
  obtain ⟨shows', length, compares⟩ := edited_as_bools Course.scattered Course.emptied
  have same : Course.scattered.bools = Course.emptied.bools := by decide +kernel
  have small : Course.scattered.bits.len < Wire.wordBound := by
    rw [shows'.len, length]
    decide +kernel
  have fits := shows'.formed.content_fits small
  have fed := compares.fed Value.Atom.spelled_prefixFree fits (compares.equal.mpr same ▸ fits) [] []
  rw [List.append_nil, List.append_nil] at fed
  refine ⟨compares.equal.mpr same, shows'.ones.trans ?_, shows'.count.trans ?_, fed.mpr ⟨same, rfl⟩⟩
  · decide +kernel
  · decide +kernel

end TrackedRecord.FieldBits
