import TrackedRecord.FieldBits

/-!
# Bit sets as sets

`get` tells two well-formed bit sets apart (`ext`), and each operation is known by what `get` finds after
it.
-/

namespace TrackedRecord.FieldBits

/-- As many words as the length asks for, and no bit set beyond it. -/
structure WellFormed (bits : FieldBits) : Prop where
  words : bits.words.length = (bits.len + 63) / 64
  clear : ∀ i, bits.len ≤ i → (bits.words.getD (i / 64) 0).getLsbD (i % 64) = false

theorem get_of_le {bits : FieldBits} {i : Nat} (outside : bits.len ≤ i) : bits.get i = false :=
  if_neg (Nat.not_lt.mpr outside)

theorem get_of_lt {bits : FieldBits} {i : Nat} (inside : i < bits.len) :
    bits.get i = (bits.words.getD (i / 64) 0).getLsbD (i % 64) :=
  if_pos inside

theorem lt_of_get {bits : FieldBits} {i : Nat} (isSet : bits.get i = true) : i < bits.len := by
  by_cases inside : i < bits.len
  · exact inside
  · rw [get_of_le (Nat.not_lt.mp inside)] at isSet
    cases isSet

/-- The words hold no more than `get` shows. -/
theorem WellFormed.word {bits : FieldBits} (formed : bits.WellFormed) (i : Nat) :
    (bits.words.getD (i / 64) 0).getLsbD (i % 64) = bits.get i := by
  by_cases inside : i < bits.len
  · rw [get_of_lt inside]
  · rw [get_of_le (Nat.not_lt.mp inside), formed.clear i (Nat.not_lt.mp inside)]

theorem ext {a b : FieldBits} (formedA : a.WellFormed) (formedB : b.WellFormed) (len : a.len = b.len)
    (same : ∀ i, a.get i = b.get i) : a = b := by
  have words : a.words = b.words := by
    apply List.ext_getElem (by rw [formedA.words, formedB.words, len])
    intro k insideA insideB
    apply BitVec.eq_of_getLsbD_eq
    intro j small
    have wordA := formedA.word (64 * k + j)
    have wordB := formedB.word (64 * k + j)
    rw [show (64 * k + j) / 64 = k by omega, show (64 * k + j) % 64 = j by omega] at wordA wordB
    rw [List.getD_eq_getElem?_getD, List.getElem?_eq_getElem insideA] at wordA
    rw [List.getD_eq_getElem?_getD, List.getElem?_eq_getElem insideB] at wordB
    exact wordA.trans ((same _).trans wordB.symm)
  cases a
  cases b
  simp_all

/-! ### Operations -/

@[simp] theorem new_len (len : Nat) : (new len).len = len := rfl

theorem new_word (len i : Nat) : ((new len).words.getD (i / 64) 0).getLsbD (i % 64) = false := by
  simp only [new, List.getD_eq_getElem?_getD, List.getElem?_replicate]
  split <;> simp

@[simp] theorem get_new (len i : Nat) : (new len).get i = false := by
  unfold get
  split
  · exact new_word len i
  · rfl

theorem new_wellFormed (len : Nat) : (new len).WellFormed where
  words := by simp [new]
  clear i _ := new_word len i

@[simp] theorem set_len (bits : FieldBits) (i : Nat) : (bits.set i).len = bits.len := by
  unfold set
  split <;> rfl

theorem set_words_length (bits : FieldBits) (i : Nat) : (bits.set i).words.length = bits.words.length := by
  unfold set
  split <;> simp

theorem getD_modify (words : List (BitVec 64)) (f : BitVec 64 → BitVec 64) {k : Nat}
    (inside : k < words.length)
    (j : Nat) : (words.modify k f).getD j 0 = if k = j then f (words.getD j 0) else words.getD j 0 := by
  simp only [List.getD_eq_getElem?_getD, List.getElem?_modify]
  split
  · subst_vars
    simp [inside]
  · simp

theorem WellFormed.set_word {bits : FieldBits} (formed : bits.WellFormed) {i : Nat}
    (inside : i < bits.len) (j : Nat) :
    ((bits.set i).words.getD (j / 64) 0).getLsbD (j % 64) =
      ((bits.words.getD (j / 64) 0).getLsbD (j % 64) || decide (i = j)) := by
  have word : i / 64 < bits.words.length := by rw [formed.words]; omega
  rw [set, if_pos inside]
  dsimp only
  rw [getD_modify _ _ word]
  split
  · rename_i sameWord
    rw [BitVec.getLsbD_or, BitVec.getLsbD_twoPow]
    congr 1
    have : j % 64 < 64 := Nat.mod_lt _ (by decide)
    by_cases same : i = j
    · subst same
      simp [this]
    · have : i % 64 ≠ j % 64 := by omega
      simp [this, same]
  · have : i ≠ j := by
      rintro rfl
      contradiction
    simp [this]

theorem WellFormed.get_set {bits : FieldBits} (formed : bits.WellFormed) {i : Nat} (inside : i < bits.len)
    (j : Nat) :
    (bits.set i).get j = (bits.get j || decide (i = j)) := by
  by_cases insideJ : j < bits.len
  · rw [get_of_lt (by rwa [set_len]), get_of_lt insideJ, formed.set_word inside]
  · have : i ≠ j := by omega
    rw [get_of_le (by rw [set_len]; omega), get_of_le (by omega)]
    simp [this]

theorem WellFormed.set {bits : FieldBits} (formed : bits.WellFormed) (i : Nat) : (bits.set i).WellFormed := by
  by_cases inside : i < bits.len
  · refine ⟨by rw [set_words_length, set_len, formed.words], ?_⟩
    intro j outside
    rw [set_len] at outside
    have : i ≠ j := by omega
    rw [formed.set_word inside, formed.clear j outside]
    simp [this]
  · rw [FieldBits.set, if_neg inside]
    exact formed

theorem foldl_set_wellFormed {bits : FieldBits} (formed : bits.WellFormed) (positions : List Nat) :
    (positions.foldl FieldBits.set bits).WellFormed ∧
      (positions.foldl FieldBits.set bits).len = bits.len := by
  induction positions generalizing bits with
  | nil => exact ⟨formed, rfl⟩
  | cons i rest ih =>
    obtain ⟨formedRest, len⟩ := ih (formed.set i)
    exact ⟨formedRest, len.trans (set_len bits i)⟩

theorem WellFormed.setAll {bits : FieldBits} (formed : bits.WellFormed) :
    bits.setAll.WellFormed ∧ bits.setAll.len = bits.len :=
  foldl_set_wellFormed formed _

theorem WellFormed.get_foldl_set {bits : FieldBits} (formed : bits.WellFormed) {positions : List Nat}
    (inside : ∀ i ∈ positions, i < bits.len) (j : Nat) :
    (positions.foldl FieldBits.set bits).get j = (bits.get j || decide (j ∈ positions)) := by
  induction positions generalizing bits with
  | nil => simp
  | cons i rest ih =>
    rw [List.forall_mem_cons] at inside
    have later := ih (formed.set i) (by simpa using inside.2)
    rw [List.foldl_cons, later, formed.get_set inside.1, Bool.or_assoc]
    simp [eq_comm]

theorem WellFormed.get_setAll {bits : FieldBits} (formed : bits.WellFormed) {i : Nat} (inside : i < bits.len) :
    bits.setAll.get i = true := by
  rw [FieldBits.setAll, formed.get_foldl_set (by simp)]
  simp [inside]

@[simp] theorem unset_len (bits : FieldBits) (i : Nat) : (bits.unset i).len = bits.len := by
  unfold unset
  split <;> rfl

theorem WellFormed.unset_word {bits : FieldBits} (formed : bits.WellFormed) {i : Nat}
    (inside : i < bits.len) (j : Nat) :
    ((bits.unset i).words.getD (j / 64) 0).getLsbD (j % 64) =
      ((bits.words.getD (j / 64) 0).getLsbD (j % 64) && !decide (i = j)) := by
  have word : i / 64 < bits.words.length := by
    have words := formed.words
    omega
  rw [unset, if_pos inside]
  dsimp only
  rw [getD_modify _ _ word]
  split
  · rename_i sameWord
    have small : j % 64 < 64 := Nat.mod_lt _ (by decide)
    rw [BitVec.getLsbD_and, BitVec.getLsbD_not, BitVec.getLsbD_twoPow]
    congr 1
    by_cases same : i = j
    · subst same
      simp [small]
    · have different : i % 64 ≠ j % 64 := by omega
      simp [small, different, same]
  · have different : i ≠ j := by
      rintro rfl
      contradiction
    simp [different]

theorem WellFormed.get_unset {bits : FieldBits} (formed : bits.WellFormed) (i j : Nat) :
    (bits.unset i).get j = (bits.get j && !decide (i = j)) := by
  by_cases inside : i < bits.len
  · by_cases insideJ : j < bits.len
    · rw [get_of_lt (by rwa [unset_len]), get_of_lt insideJ, formed.unset_word inside]
    · rw [get_of_le (by rw [unset_len]; omega), get_of_le (by omega), Bool.false_and]
  · rw [FieldBits.unset, if_neg inside]
    by_cases same : i = j
    · rw [← same, get_of_le (Nat.not_lt.mp inside), Bool.false_and]
    · simp [same]

theorem WellFormed.unset {bits : FieldBits} (formed : bits.WellFormed) (i : Nat) :
    (bits.unset i).WellFormed := by
  by_cases inside : i < bits.len
  · constructor
    · rw [unset_len, FieldBits.unset, if_pos inside]
      simpa using formed.words
    · intro j outside
      rw [unset_len] at outside
      rw [formed.unset_word inside, formed.clear j outside, Bool.false_and]
  · rw [FieldBits.unset, if_neg inside]
    exact formed

theorem foldl_unset {bits : FieldBits} (formed : bits.WellFormed) (positions : List Nat) :
    (positions.foldl FieldBits.unset bits).WellFormed ∧
      (positions.foldl FieldBits.unset bits).len = bits.len ∧
      ∀ i, (positions.foldl FieldBits.unset bits).get i = (bits.get i && decide (i ∉ positions)) := by
  induction positions generalizing bits with
  | nil => exact ⟨formed, rfl, fun i => by simp⟩
  | cons position rest ih =>
    obtain ⟨formedRest, len, get⟩ := ih (formed.unset position)
    refine ⟨formedRest, len.trans (unset_len bits position), fun i => ?_⟩
    rw [List.foldl_cons, get, formed.get_unset, Bool.and_assoc]
    congr 1
    by_cases here : i = position
    · simp [here]
    · simp [here, Ne.symm here]

theorem clearAll_word (bits : FieldBits) (i : Nat) :
    (bits.clearAll.words.getD (i / 64) 0).getLsbD (i % 64) = false := by
  rw [clearAll, List.getD_eq_getElem?_getD, List.getElem?_map]
  cases bits.words[i / 64]? <;> simp

@[simp] theorem get_clearAll (bits : FieldBits) (i : Nat) : bits.clearAll.get i = false := by
  unfold get
  split
  · exact clearAll_word bits i
  · rfl

theorem WellFormed.clearAll {bits : FieldBits} (formed : bits.WellFormed) : bits.clearAll.WellFormed where
  words := List.length_map _ |>.trans formed.words
  clear i _ := clearAll_word bits i

/-! ### Positions -/

theorem mem_ones {bits : FieldBits} {i : Nat} : i ∈ bits.ones ↔ bits.get i = true := by
  simp only [ones, List.mem_filter, List.mem_range]
  exact ⟨fun member => member.2, fun isSet => ⟨lt_of_get isSet, isSet⟩⟩

theorem ones_nodup (bits : FieldBits) : bits.ones.Nodup := List.nodup_range.filter _

theorem ones_ascending (bits : FieldBits) : bits.ones.Pairwise (· < ·) := List.pairwise_lt_range.filter _

@[simp] theorem ones_new (len : Nat) : (new len).ones = [] := by
  simp [ones]

theorem ones_set_new {len i : Nat} (inside : i < len) : ((new len).set i).ones = [i] := by
  have same : ∀ j ∈ List.range len, ((new len).set i).get j = decide (j = i) := fun j _ => by
    rw [(new_wellFormed len).get_set inside, get_new, Bool.false_or, decide_eq_decide]
    exact eq_comm
  rw [ones, set_len, new_len, List.filter_congr same, List.filter_eq,
    List.nodup_range.count, if_pos (List.mem_range.mpr inside), List.replicate_one]

/-! ### From and to Booleans -/

/-- Setting the bits of a list of Booleans that starts at position `k`. -/
theorem foldl_set {bits : FieldBits} (formed : bits.WellFormed) {bools : List Bool} {k : Nat}
    (room : k + bools.length ≤ bits.len) :
    let result := (bools.zipIdx k).foldl (fun bits (bit, i) => if bit then bits.set i else bits) bits
    result.WellFormed ∧ result.len = bits.len ∧
      ∀ i, result.get i = (bits.get i || (decide (k ≤ i) && bools.getD (i - k) false)) := by
  induction bools generalizing bits k with
  | nil => simp [formed]
  | cons bit rest ih =>
    rw [List.length_cons] at room
    have step : ∃ next : FieldBits, (if bit then bits.set k else bits) = next ∧ next.WellFormed ∧
        next.len = bits.len ∧ ∀ i, next.get i = (bits.get i || (bit && decide (k = i))) := by
      cases bit
      · exact ⟨bits, rfl, formed, rfl, by simp⟩
      · exact ⟨bits.set k, rfl, formed.set k, set_len bits k,
          by simp [formed.get_set (show k < bits.len by omega)]⟩
    obtain ⟨next, same, formedNext, len, get⟩ := step
    rw [List.zipIdx_cons, List.foldl_cons]
    dsimp only
    rw [same]
    obtain ⟨formedResult, lenResult, getResult⟩ := ih formedNext (k := k + 1) (by omega)
    refine ⟨formedResult, lenResult.trans len, ?_⟩
    intro i
    rw [getResult, get, Bool.or_assoc]
    congr 1
    by_cases here : k = i
    · subst here
      simp [show ¬k + 1 ≤ k by omega]
    · by_cases later : k ≤ i
      · rw [show i - k = (i - (k + 1)) + 1 by omega]
        simp [here, later, show k + 1 ≤ i by omega]
      · simp [here, later, show ¬k + 1 ≤ i by omega]

theorem ofBools_wellFormed (bools : List Bool) : (ofBools bools).WellFormed :=
  (foldl_set (new_wellFormed _) (k := 0) (by simp)).1

@[simp] theorem ofBools_len (bools : List Bool) : (ofBools bools).len = bools.length :=
  (foldl_set (new_wellFormed _) (k := 0) (by simp)).2.1

theorem get_ofBools (bools : List Bool) (i : Nat) : (ofBools bools).get i = bools.getD i false := by
  have room : 0 + bools.length ≤ (new bools.length).len := Nat.le_of_eq (Nat.zero_add _)
  have get := (foldl_set (new_wellFormed bools.length) room).2.2 i
  simpa [ofBools] using get

theorem ofBools_toBools {bits : FieldBits} (formed : bits.WellFormed) : ofBools bits.toBools = bits := by
  apply ext (ofBools_wellFormed _) formed (by simp [toBools])
  intro i
  rw [get_ofBools, toBools, List.getD_eq_getElem?_getD, List.getElem?_map]
  by_cases inside : i < bits.len
  · simp [inside]
  · simp [inside, get_of_le (Nat.not_lt.mp inside)]

end TrackedRecord.FieldBits
