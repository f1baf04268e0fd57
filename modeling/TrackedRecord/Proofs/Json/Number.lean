import TrackedRecord.Json.Reader
import TrackedRecord.Json.Writer
import TrackedRecord.Proofs.Decimal.Shortest
import TrackedRecord.Proofs.Json.Reader

/-!
# Numbers that are written

A number that a document holds is read from its own text, whatever other than a number goes on after it.
-/

namespace TrackedRecord.Json

namespace Reader

variable {strict : Strictness} {cs rest : List Char}

/-! ### Digits -/

/-- Nothing that would go on with a number. -/
def Closes (cs : List Char) : Prop := ∀ c ∈ cs.head?, c.isDigit = false ∧ c ≠ '.' ∧ c ≠ 'e' ∧ c ≠ 'E'

theorem span_digits {found : List Char} (each : ∀ c ∈ found, c.isDigit = true)
    (stops : ∀ c ∈ rest.head?, c.isDigit = false) : (found ++ rest).span Char.isDigit = (found, rest) := by
  have none : rest.takeWhile Char.isDigit = [] ∧ rest.dropWhile Char.isDigit = rest := by
    cases rest with
    | nil => exact ⟨rfl, rfl⟩
    | cons c rest =>
      have other : ¬c.isDigit = true := by simp [stops c rfl]
      exact ⟨List.takeWhile_cons_of_neg other, List.dropWhile_cons_of_neg other⟩
  rw [List.span_eq_takeWhile_dropWhile, List.takeWhile_append_of_pos each, List.dropWhile_append_of_pos each, none.1,
    none.2, List.append_nil]

theorem digits_append {found : List Char} (each : ∀ c ∈ found, c.isDigit = true) (present : found ≠ [])
    (stops : ∀ c ∈ rest.head?, c.isDigit = false) : digits (found ++ rest) = .ok (found, rest) := by
  unfold digits
  rw [span_digits each stops]
  cases found with
  | nil => exact absurd rfl present
  | cons => rfl

theorem digitsValue_eq (found : List Char) : digitsValue found = Nat.ofDigitChars 10 found 0 := by
  unfold digitsValue Nat.ofDigitChars
  congr 1
  funext value d
  rw [Nat.mul_comm]
  rfl

theorem digitsValue_toDigits (n : Nat) : digitsValue (Nat.toDigits 10 n) = n := by
  rw [digitsValue_eq, Nat.ofDigitChars_ten_toDigits]

theorem toDigits_isDigit {n : Nat} : ∀ c ∈ Nat.toDigits 10 n, c.isDigit = true :=
  fun _ member => Nat.isDigit_of_mem_toDigits (by decide) (by decide) member

/-- No number but zero is written with a zero in front. -/
theorem toDigits_head {n : Nat} (positive : 0 < n) : ∃ d ds, Nat.toDigits 10 n = d :: ds ∧ d ≠ '0' := by
  induction n using Nat.base_induction 10 (by decide) with
  | single n small =>
    rw [Nat.toDigits_of_lt_base small]
    refine ⟨_, _, rfl, ?_⟩
    rw [Ne, Nat.digitChar_eq_zero]
    omega
  | digit n d small more ih =>
    obtain ⟨d, ds, same, lead⟩ := ih more
    rw [← Nat.toDigits_append_toDigits (by decide) more small, same]
    exact ⟨d, _, rfl, lead⟩

/-! ### Parts of a number -/

/-- Digits as they stand in front of a number: no zero before another digit. -/
structure Leads (whole : List Char) : Prop where
  each : ∀ c ∈ whole, c.isDigit = true
  first : whole = ['0'] ∨ ∃ d ds, whole = d :: ds ∧ d ≠ '0'

theorem Leads.toDigits (n : Nat) : Leads (Nat.toDigits 10 n) where
  each := toDigits_isDigit
  first := (Nat.eq_zero_or_pos n).imp (fun zero => by rw [zero, Nat.toDigits_zero]) toDigits_head

theorem Leads.cons {whole : List Char} (leads : Leads whole) : ∃ c ds, whole = c :: ds := by
  rcases leads.first with rfl | ⟨d, ds, rfl, _⟩
  · exact ⟨_, _, rfl⟩
  · exact ⟨_, _, rfl⟩

theorem wholeDigits_append {whole : List Char} (leads : Leads whole) (stops : ∀ c ∈ rest.head?, c.isDigit = false) :
    wholeDigits (whole ++ rest) = .ok (whole, rest) := by
  have present : whole ≠ [] := by
    obtain ⟨c, ds, rfl⟩ := leads.cons
    exact List.cons_ne_nil c ds
  rw [wholeDigits, Result.bind_of_ok (digits_append leads.each present stops)]
  rcases leads.first with rfl | ⟨d, ds, rfl, nonzero⟩
  · rfl
  · dsimp only
    split
    · rename_i same
      cases same
      exact absurd rfl nonzero
    · rfl

theorem fraction_append {found : List Char} (each : ∀ c ∈ found, c.isDigit = true) (present : found ≠ [])
    (stops : ∀ c ∈ rest.head?, c.isDigit = false) : fraction ('.' :: found ++ rest) = .ok (some found, rest) := by
  rw [List.cons_append, fraction, Result.bind_of_ok (digits_append each present stops)]
  rfl

theorem fraction_none (other : ∀ c ∈ rest.head?, c ≠ '.') : fraction rest = .ok (none, rest) := by
  unfold fraction
  split
  · exact absurd rfl (other '.' rfl)
  · rfl

theorem exponent_none (other : ∀ c ∈ rest.head?, c ≠ 'e' ∧ c ≠ 'E') : exponent rest = .ok (none, rest) := by
  cases rest with
  | nil => rfl
  | cons c rest =>
    unfold exponent
    exact if_neg (not_or.mpr (other c rfl))

/-- An exponent with its sign. -/
theorem exponent_append (n : Int) (stops : ∀ c ∈ rest.head?, c.isDigit = false) :
    exponent (['e'] ++ (if n < 0 then "" else "+").toList ++ (toString n).toList ++ rest) = .ok (some n, rest) := by
  have shown (size : Nat) : digits (Nat.toDigits 10 size ++ rest) = .ok (Nat.toDigits 10 size, rest) :=
    digits_append toDigits_isDigit Nat.toDigits_ne_nil stops
  have minus (size : Nat) : exponent ('e' :: '-' :: (Nat.toDigits 10 size ++ rest)) = .ok (some (-size), rest) := by
    rw [exponent, if_pos (.inl rfl)]
    dsimp only
    rw [Result.bind_of_ok (shown size)]
    dsimp only
    rw [if_pos rfl, digitsValue_toDigits]
    rfl
  have plus (size : Nat) : exponent ('e' :: '+' :: (Nat.toDigits 10 size ++ rest)) = .ok (some size, rest) := by
    rw [exponent, if_pos (.inl rfl)]
    dsimp only
    rw [Result.bind_of_ok (shown size)]
    dsimp only
    rw [if_neg Bool.false_ne_true, digitsValue_toDigits]
    rfl
  rw [Int.toString_eq_repr, Int.repr_eq_if]
  by_cases negative : n < 0
  · rw [if_pos negative, if_neg (by omega), String.toList_append, Nat.toList_repr]
    have read := minus (-n).toNat
    rw [show -((-n).toNat : Int) = n by omega] at read
    exact read
  · rw [if_neg negative, if_pos (by omega), Nat.toList_repr]
    have read := plus n.toNat
    rw [show (n.toNat : Int) = n by omega] at read
    exact read

/-- A number from its parts. -/
theorem number_of_parts {negative : Bool} {whole tail afterFraction : List Char} {frac : Option (List Char)}
    {exp : Option Int} (leads : Leads whole) (stops : ∀ c ∈ tail.head?, c.isDigit = false)
    (ofFraction : fraction tail = .ok (frac, afterFraction)) (ofExponent : exponent afterFraction = .ok (exp, rest))
    {n : Number} (made : numberOf strict negative whole frac exp = .ok n) :
    number strict ((if negative then ['-'] else []) ++ whole ++ tail) = .ok (n, rest) := by
  have signed : sign ((if negative then ['-'] else []) ++ whole ++ tail) = (negative, whole ++ tail) := by
    cases negative with
    | true => rfl
    | false =>
      obtain ⟨c, ds, rfl⟩ := leads.cons
      rw [if_neg Bool.false_ne_true, List.nil_append]
      unfold sign
      split
      · rename_i same
        cases same
        cases leads.each '-' List.mem_cons_self
      · rfl
  unfold number
  rw [signed]
  dsimp only
  rw [Result.bind_of_ok (wholeDigits_append leads stops), Result.bind_of_ok ofFraction,
    Result.bind_of_ok ofExponent, Result.bind_of_ok made]
  rfl

/-! ### Doubles -/

theorem numberOf_point {negative : Bool} {whole places : List Char} {exp : Option Int} :
    numberOf strict negative whole (some places) exp =
      double strict negative (digitsValue (whole ++ places)) (exp.getD 0 - places.length) := by
  cases exp <;> rfl

theorem numberOf_exponent {negative : Bool} {whole : List Char} {exp : Int} :
    numberOf strict negative whole none (some exp) = double strict negative (digitsValue whole) exp := by
  rw [numberOf, Option.getD_none, List.append_nil, Option.getD_some, List.length_nil, Nat.cast_zero, Int.sub_zero]
  nofun

/-! ### Texts of doubles -/

open Decimal (withPoint withExponent)

/-- A text that is digits in front of a point and digits behind it, which stand for the value. -/
structure Pointed (text whole behind : List Char) (value : ℚ) : Prop where
  text_eq : text = whole ++ '.' :: behind
  leads : Leads whole
  each : ∀ c ∈ behind, c.isDigit = true
  present : behind ≠ []
  value_eq : (digitsValue (whole ++ behind) * 10 ^ (-(behind.length : Int)) : ℚ) = value

theorem zeros_isDigit (n : Nat) : ∀ c ∈ List.replicate n '0', c.isDigit = true := by
  intro c member
  rw [(List.mem_replicate.mp member).2]
  rfl

section

variable {shown : List Char} {places : Int}

theorem pointed_behind (each : ∀ c ∈ shown, c.isDigit = true) (present : shown ≠ []) (small : places ≤ 0) :
    Pointed (withPoint shown places) ['0'] (List.replicate (-places).toNat '0' ++ shown)
      (digitsValue shown * 10 ^ (places - shown.length)) where
  text_eq := by
    rw [withPoint, if_pos small]
    simp
  leads := ⟨List.forall_mem_singleton.mpr rfl, .inl rfl⟩
  each := List.forall_mem_append.mpr ⟨zeros_isDigit _, each⟩
  present := List.append_ne_nil_of_right_ne_nil _ present
  value_eq := by
    have front : Nat.ofDigitChars 10 ['0'] 0 = 0 := by decide
    rw [digitsValue_eq, digitsValue_eq, Nat.ofDigitChars_append, Nat.ofDigitChars_append, front,
      Nat.ofDigitChars_replicate_zero, Nat.mul_zero, List.length_append, List.length_replicate]
    congr 2
    omega

theorem pointed_front (leads : Leads shown) {d : Char} {ds : List Char} (same : shown = d :: ds) (nonzero : d ≠ '0')
    {p : Nat} (large : shown.length ≤ p + 1) :
    Pointed (withPoint shown (p + 1 : Nat)) (shown ++ List.replicate (p + 1 - shown.length) '0') ['0']
      (digitsValue shown * 10 ^ (((p + 1 : Nat) : Int) - shown.length)) where
  text_eq := by
    rw [withPoint, if_neg (by omega), Int.toNat_natCast, List.take_of_length_le large, List.drop_of_length_le large]
    simp
  leads := ⟨List.forall_mem_append.mpr ⟨leads.each, zeros_isDigit _⟩,
    .inr ⟨d, _, by rw [same, List.cons_append], nonzero⟩⟩
  each := List.forall_mem_singleton.mpr rfl
  present := List.cons_ne_nil _ _
  value_eq := by
    have behind (n : Nat) : Nat.ofDigitChars 10 ['0'] n = 10 * n := by
      rw [Nat.ofDigitChars_cons]
      rfl
    rw [digitsValue_eq, digitsValue_eq, Nat.ofDigitChars_append, Nat.ofDigitChars_append,
      Nat.ofDigitChars_replicate_zero, behind, ← Nat.cast_sub large, zpow_natCast]
    push_cast
    simp
    ring

theorem pointed_among (leads : Leads shown) {d : Char} {ds : List Char} (same : shown = d :: ds) (nonzero : d ≠ '0')
    {p : Nat} (less : p + 1 < shown.length) :
    Pointed (withPoint shown (p + 1 : Nat)) (shown.take (p + 1)) (shown.drop (p + 1))
      (digitsValue shown * 10 ^ (((p + 1 : Nat) : Int) - shown.length)) where
  text_eq := by
    rw [withPoint, if_neg (by omega), Int.toNat_natCast, Nat.sub_eq_zero_of_le less.le]
    simp [less]
  leads := ⟨fun c member => leads.each c (List.mem_of_mem_take member),
    .inr ⟨d, ds.take p, by rw [same, List.take_succ_cons], nonzero⟩⟩
  each c member := leads.each c (List.mem_of_mem_drop member)
  present := by
    rw [Ne, List.drop_eq_nil_iff]
    exact Nat.not_le.mpr less
  value_eq := by
    rw [List.take_append_drop, List.length_drop]
    congr 2
    omega

end

/-- Digits with a point among them are digits in front of it and digits behind it. -/
theorem withPoint_pointed {digits : Nat} (positive : 0 < digits) (places : Int) :
    ∃ whole behind, Pointed (withPoint (Nat.toDigits 10 digits) places) whole behind
      (digits * 10 ^ (places - (Nat.toDigits 10 digits).length)) := by
  have leads := Leads.toDigits digits
  have value := digitsValue_toDigits digits
  obtain ⟨d, ds, same, nonzero⟩ := toDigits_head positive
  generalize Nat.toDigits 10 digits = shown at *
  rw [← value]
  rcases le_or_gt places 0 with small | large
  · exact ⟨_, _, pointed_behind leads.each (same ▸ List.cons_ne_nil d ds) small⟩
  · obtain ⟨p, rfl⟩ : ∃ p : Nat, places = (p + 1 : Nat) := ⟨places.toNat - 1, by omega⟩
    rcases Nat.lt_or_ge (p + 1) shown.length with less | whole
    · exact ⟨_, _, pointed_among leads same nonzero less⟩
    · exact ⟨_, _, pointed_front leads same nonzero whole⟩

variable {bits : UInt64} {negative : Bool} {m digits : Nat} {e shift places leading : Int}

theorem double_of_near (unpacked : Decimal.double.unpack bits.toNat = .finite negative m e) (positive : 0 < m)
    (near : Decimal.double.Near m e (digits * 10 ^ shift)) :
    double strict negative digits shift = .ok (.double bits) := by
  have same :=
    Decimal.Format.pattern_of_unpack (show bits.toNat < 2 * Decimal.double.signBit from bits.toNat_lt) unpacked
  unfold double
  rw [Decimal.ofDecimal?_near (Decimal.Format.unpack_finite unpacked).1 positive near negative, same]
  dsimp only
  rw [UInt64.ofNat_toNat]

theorem number_withPoint (unpacked : Decimal.double.unpack bits.toNat = .finite negative m e) (positive : 0 < m)
    (present : 0 < digits)
    (near : Decimal.double.Near m e (digits * 10 ^ (places - (Nat.toDigits 10 digits).length))) (closes : Closes rest) :
    number strict ((if negative then ['-'] else []) ++ withPoint (Nat.toDigits 10 digits) places ++ rest) =
      .ok (.double bits, rest) := by
  obtain ⟨whole, behind, text, leads, each, present, value⟩ := withPoint_pointed present places
  have made : numberOf strict negative whole (some behind) none = .ok (.double bits) := by
    rw [numberOf_point, Option.getD_none, Int.zero_sub]
    exact double_of_near unpacked positive (value ▸ near)
  have fraction := fraction_append each present fun c member => (closes c member).1
  have read := number_of_parts leads (by rintro c ⟨⟩; rfl) fraction (exponent_none fun c member => (closes c member).2.2)
    made
  rw [text]
  simpa using read

theorem number_withExponent (unpacked : Decimal.double.unpack bits.toNat = .finite negative m e) (positive : 0 < m)
    (present : 0 < digits)
    (near : Decimal.double.Near m e (digits * 10 ^ (leading + 1 - (Nat.toDigits 10 digits).length)))
    (closes : Closes rest) :
    number strict ((if negative then ['-'] else []) ++ withExponent "+" (Nat.toDigits 10 digits) leading ++ rest) =
      .ok (.double bits, rest) := by
  have each := toDigits_isDigit (n := digits)
  have value := digitsValue_toDigits digits
  obtain ⟨d, ds, same, nonzero⟩ := toDigits_head present
  rw [same] at each value near
  rw [List.forall_mem_cons] at each
  have leads : Leads [d] := ⟨List.forall_mem_singleton.mpr each.1, .inr ⟨d, [], rfl, nonzero⟩⟩
  have exponent := exponent_append leading fun c member => (closes c member).1
  unfold withExponent
  rw [same]
  cases ds with
  | nil =>
    have made : numberOf strict negative [d] none (some leading) = .ok (.double bits) := by
      rw [numberOf_exponent, value]
      rw [List.length_singleton, Nat.cast_one, Int.add_sub_cancel] at near
      exact double_of_near unpacked positive near
    have read := number_of_parts leads (by rintro c ⟨⟩; rfl) (fraction_none (by rintro c ⟨⟩; decide)) exponent made
    simpa using read
  | cons c ds =>
    have made : numberOf strict negative [d] (some (c :: ds)) (some leading) = .ok (.double bits) := by
      rw [numberOf_point, List.singleton_append, value, Option.getD_some]
      rw [List.length_cons, Nat.cast_succ, Int.add_sub_add_right] at near
      exact double_of_near unpacked positive near
    have fraction : fraction ('.' :: (c :: ds) ++ (['e'] ++ (if leading < 0 then "" else "+").toList ++
        (toString leading).toList ++ rest)) = .ok (some (c :: ds), _) :=
      fraction_append each.2 (List.cons_ne_nil c ds) (by rintro c ⟨⟩; rfl)
    have read := number_of_parts leads (by rintro c ⟨⟩; rfl) fraction exponent made
    simpa using read

theorem number_zero (unpacked : Decimal.double.unpack bits.toNat = .finite negative 0 e) (closes : Closes rest) :
    number strict ((if negative then ['-'] else []) ++ ['0', '.', '0'] ++ rest) = .ok (.double bits, rest) := by
  have same :=
    Decimal.Format.pattern_of_unpack (show bits.toNat < 2 * Decimal.double.signBit from bits.toNat_lt) unpacked
  have holds := (Decimal.Format.unpack_finite unpacked).1
  have pattern : Decimal.double.pattern 0 e = 0 := by
    have least : e = Decimal.double.leastExponent :=
      le_antisymm (not_lt.mp fun above => absurd (holds.normal above) (by decide)) holds.least
    rw [Decimal.Format.pattern, least, Int.sub_self]
    rfl
  rw [pattern] at same
  have made : numberOf strict negative ['0'] (some ['0']) none = .ok (.double bits) := by
    have value : digitsValue (['0'] ++ ['0']) = 0 := by decide
    have rounded : Decimal.double.round negative 0 1 = bits.toNat := same
    rw [numberOf_point, value, double, Decimal.ofDecimal?, if_pos rfl, rounded]
    dsimp only
    rw [UInt64.ofNat_toNat]
  have zero : ∀ c ∈ ['0'], c.isDigit = true := List.forall_mem_singleton.mpr rfl
  have fraction : fraction ('.' :: ['0'] ++ rest) = .ok (some ['0'], rest) :=
    fraction_append zero (List.cons_ne_nil _ _) fun c member => (closes c member).1
  have read := number_of_parts ⟨zero, .inl rfl⟩ (by rintro c ⟨⟩; rfl) fraction
    (exponent_none fun c member => (closes c member).2.2) made
  simpa using read

/-- The digits of a number in front of or behind its exponent. -/
theorem number_digits (unpacked : Decimal.double.unpack bits.toNat = .finite negative m e) (positive : 0 < m)
    {shown : Decimal.Digits} (present : 0 < shown.digits) (near : Decimal.double.Near m e shown.value)
    (closes : Closes rest) :
    let digits := (toString shown.digits).toList
    let leading := shown.exponent + digits.length - 1
    number strict ((if negative then ['-'] else []) ++ (if -5 ≤ leading ∧ leading < 16 then
      withPoint digits (leading + 1) else withExponent "+" digits leading) ++ rest) = .ok (.double bits, rest) := by
  rw [Nat.toString_eq_repr, Nat.toList_repr]
  dsimp only
  have value : shown.value = shown.digits * 10 ^ (shown.exponent + (Nat.toDigits 10 shown.digits).length - 1 + 1 -
      (Nat.toDigits 10 shown.digits).length) := by
    rw [Int.sub_add_cancel, Int.add_sub_cancel]
    rfl
  rw [value] at near
  generalize shown.exponent + (Nat.toDigits 10 shown.digits).length - 1 = leading at near ⊢
  by_cases positional : -5 ≤ leading ∧ leading < 16
  · rw [if_pos positional]
    exact number_withPoint unpacked positive present near closes
  · rw [if_neg positional]
    exact number_withExponent unpacked positive present near closes

theorem number_double (unpacked : Decimal.double.unpack bits.toNat = .finite negative m e) (closes : Closes rest) :
    number strict ((Number.double bits).text.toList ++ rest) = .ok (.double bits, rest) := by
  have sign : (if negative then "-" else "").toList = if negative then ['-'] else [] := by
    cases negative <;> rfl
  unfold Number.text Decimal.Layout.text
  dsimp only
  rw [unpacked]
  split
  · rename_i none
    cases none
  · rename_i none
    cases none
  · rename_i same
    cases same
    rw [String.toList_append, sign]
    exact number_zero unpacked closes
  · rename_i nonzero same
    cases same
    have positive : 0 < m := Nat.pos_of_ne_zero nonzero
    obtain ⟨present, near⟩ := Decimal.shortest_near (Decimal.Format.unpack_finite unpacked).1 positive numberLayout.tie
    rw [String.toList_append, sign, String.toList_ofList]
    exact number_digits unpacked positive present near closes

end Reader

/-- A number that can be held is read from its text. -/
theorem Number.Held.reads {n : Number} (held : n.Held) {strict : Strictness} {rest : List Char}
    (closes : Reader.Closes rest) : Reader.number strict (n.text.toList ++ rest) = .ok (n, rest) := by
  cases n with
  | double bits =>
    obtain ⟨negative, m, e, unpacked⟩ := held
    exact Reader.number_double unpacked closes
  | whole n =>
    obtain ⟨low, high⟩ := held
    have made : Reader.numberOf strict (decide (n < 0)) (Nat.toDigits 10 n.natAbs) none none = .ok (.whole n) := by
      unfold Reader.numberOf
      dsimp only
      rw [Reader.digitsValue_toDigits]
      have size : (if decide (n < 0) = true then -(n.natAbs : Int) else n.natAbs) = n := by
        split
        · rename_i negative
          have := of_decide_eq_true negative
          omega
        · rename_i positive
          have := of_decide_eq_false (Bool.not_eq_true _ ▸ positive)
          omega
      rw [size, if_neg]
      rintro (⟨negative, zero⟩ | outside)
      · have := of_decide_eq_true negative
        omega
      · omega
    have read := Reader.number_of_parts (.toDigits n.natAbs) (fun c member => (closes c member).1)
      (Reader.fraction_none fun c member => (closes c member).2.1)
      (Reader.exponent_none fun c member => (closes c member).2.2) made
    rw [Number.text, Int.toString_eq_repr, Int.repr_eq_if]
    by_cases negative : n < 0
    · rw [if_neg (by omega), String.toList_append, Nat.toList_repr, show (-n).toNat = n.natAbs by omega]
      rwa [if_pos (decide_eq_true negative)] at read
    · rw [if_pos (by omega), Nat.toList_repr, show n.toNat = n.natAbs by omega]
      rwa [if_neg (by simpa using negative), List.nil_append] at read

end TrackedRecord.Json
