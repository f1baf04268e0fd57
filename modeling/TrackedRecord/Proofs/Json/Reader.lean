import TrackedRecord.Json.Reader
import TrackedRecord.Proofs.Decimal.Finite
import TrackedRecord.Proofs.Json.Induction
import TrackedRecord.Proofs.Keyed
import TrackedRecord.Proofs.Result

/-!
# Documents that are read

Whole numbers that are read have 64 bits, with or without a sign, at any depth of the document, and the members of
an object that is read in full are sorted.
-/

namespace TrackedRecord.Json

/-- Every number in the document is as `P` says. -/
inductive Numbers (P : Number → Prop) : Json → Prop where
  | intro {json : Json} (number : ∀ n, json = .number n → P n) (parts : ∀ part ∈ json.parts, Numbers P part) :
      Numbers P json

theorem Numbers.number {P : Number → Prop} {n : Number} (numbers : (Json.number n).Numbers P) : P n := by
  cases numbers with
  | intro number _ => exact number n rfl

theorem Numbers.part {P : Number → Prop} {json part : Json} (numbers : json.Numbers P) (part_of : part ∈ json.parts) :
    part.Numbers P := by
  cases numbers with
  | intro _ parts => exact parts part part_of

/-- A number as a document holds it: whole within 64 bits, or finite. -/
def Number.Held : Number → Prop
  | .whole n => minWhole ≤ n ∧ n ≤ maxWhole
  | .double bits => Decimal.double.IsFinite bits.toNat

/-- A document with such numbers. -/
abbrev Held (json : Json) : Prop := json.Numbers Number.Held

theorem Held.double? {json : Json} (held : json.Held) {bits : UInt64} (read : json.double? = some bits) :
    Decimal.double.IsFinite bits.toNat := by
  cases json with
  | number n =>
    cases n with
    | whole n =>
      obtain ⟨low, high⟩ : -0x8000000000000000 ≤ n ∧ n ≤ 0xFFFFFFFFFFFFFFFF := held.number
      obtain ⟨below, finite⟩ := Decimal.Format.double_round_finite (decide (n < 0)) (n := n.natAbs) (by omega)
      cases read
      rwa [UInt64.toNat_ofNat_of_lt' below]
    | double bits =>
      cases read
      exact held.number
  | _ => cases read

/-- Every whole number in the document has 64 bits. -/
inductive InRange : Json → Prop where
  | intro {json : Json} (whole : ∀ n, json = .number (.whole n) → minWhole ≤ n ∧ n ≤ maxWhole)
    (parts : ∀ part ∈ json.parts, InRange part) : InRange json

theorem InRange.whole {n : Int} (inRange : (Json.number (.whole n)).InRange) : minWhole ≤ n ∧ n ≤ maxWhole := by
  cases inRange with
  | intro whole parts => exact whole n rfl

theorem InRange.part {json part : Json} (inRange : json.InRange) (member : part ∈ json.parts) : part.InRange := by
  cases inRange with
  | intro whole parts => exact parts part member

theorem Numbers.inRange {json : Json}
    (numbers : json.Numbers fun n => ∀ m, n = .whole m → minWhole ≤ m ∧ m ≤ maxWhole) : json.InRange := by
  induction numbers with
  | intro number _ ih => exact .intro (fun m same => number _ same m rfl) ih

namespace Reader

variable {strict : Strictness}

theorem keyword_ok {α : Type} {a b : α} {word cs rest : List Char} (h : keyword a word cs = .ok (b, rest)) :
    b = a := by
  induction word generalizing cs with
  | nil =>
    cases h
    rfl
  | cons w word ih =>
    cases cs with
    | nil => cases h
    | cons c cs =>
      rw [keyword] at h
      split at h
      · exact ih h
      · cases h

theorem double_ok {negative : Bool} {digits : Nat} {shift : Int} {n : Number}
    (h : double strict negative digits shift = .ok n) : ∃ bits, n = .double bits := by
  unfold double at h
  split at h
  · cases h
    exact ⟨_, rfl⟩
  · split at h
    · cases h
    · cases h
      exact ⟨_, rfl⟩

/-- A number is whole and has 64 bits, or it is rounded. -/
theorem numberOf_ok {negative : Bool} {digits : List Char} {frac : Option (List Char)} {exp : Option Int}
    {n : Number} (h : numberOf strict negative digits frac exp = .ok n) :
    (∃ m, n = .whole m ∧ minWhole ≤ m ∧ m ≤ maxWhole) ∨ ∃ size shift, double strict negative size shift = .ok n := by
  unfold numberOf at h
  split at h
  · dsimp only at h
    generalize (if negative = true then -(digitsValue digits : Int) else digitsValue digits) = size at h
    split at h
    · exact Or.inr ⟨_, _, h⟩
    · cases h
      exact Or.inl ⟨size, rfl, by omega, by omega⟩
  · exact Or.inr ⟨_, _, h⟩

theorem number_ok {cs rest : List Char} {n : Number} (h : number strict cs = .ok (n, rest)) :
    (∃ m, n = .whole m ∧ minWhole ≤ m ∧ m ≤ maxWhole) ∨
      ∃ negative size shift, double strict negative size shift = .ok n := by
  obtain ⟨⟨whole, _⟩, _, h⟩ := Result.bind_ok h
  obtain ⟨⟨frac, _⟩, _, h⟩ := Result.bind_ok h
  obtain ⟨⟨exp, _⟩, _, h⟩ := Result.bind_ok h
  obtain ⟨m, read, h⟩ := Result.bind_ok h
  cases h
  exact (numberOf_ok read).imp_right fun ⟨size, shift, read⟩ => ⟨_, size, shift, read⟩

theorem number_held (finite : strict.finiteNumbers = true) {cs rest : List Char} {n : Number}
    (h : number strict cs = .ok (n, rest)) : n.Held := by
  rcases number_ok h with ⟨m, rfl, low, high⟩ | ⟨negative, size, shift, read⟩
  · exact ⟨low, high⟩
  · unfold double at read
    split at read
    · rename_i known
      obtain ⟨below, finite⟩ := Decimal.ofDecimal?_finite known
      cases read
      rwa [Number.Held, UInt64.toNat_ofNat_of_lt' below]
    · rw [if_pos finite] at read
      cases read

theorem unexpected_ne_ok {α : Type} {cs : List Char} {found : Found α} : unexpected cs ≠ .ok found := by
  cases cs <;> exact nofun

/-- What a value is by the way in which it was read. -/
inductive Form (strict : Strictness) (fuel : Nat) : Json → Prop where
  | flat {json : Json} (whole : ∀ n, json ≠ .number n) (parts : json.parts = []) : Form strict fuel json
  | number {cs rest : List Char} {n : Number} (read : number strict cs = .ok (n, rest)) : Form strict fuel (.number n)
  | array {nesting : Nat} {cs rest : List Char} {found : List Json}
    (read : items strict fuel nesting [] cs = .ok (found, rest)) : Form strict fuel (.array found)
  | object {nesting : Nat} {cs rest : List Char} {found : List (String × Json)}
    (read : members strict fuel nesting [] cs = .ok (found, rest)) : Form strict fuel (.object found)

/-- The cases are those of the first character. -/
theorem value_form {fuel nesting : Nat} {cs rest : List Char} {json : Json}
    (h : value strict (fuel + 1) nesting cs = .ok (json, rest)) : Form strict fuel json := by
  rw [value] at h
  split at h
  · cases h
  · rename_i c after _
    by_cases isNull : c = 'n'
    · rw [if_pos isNull] at h
      rw [keyword_ok h]
      exact .flat nofun rfl
    by_cases isTrue : c = 't'
    · rw [if_neg isNull, if_pos isTrue] at h
      rw [keyword_ok h]
      exact .flat nofun rfl
    by_cases isFalse : c = 'f'
    · rw [if_neg isNull, if_neg isTrue, if_pos isFalse] at h
      rw [keyword_ok h]
      exact .flat nofun rfl
    rw [if_neg isNull, if_neg isTrue, if_neg isFalse] at h
    by_cases isString : c = '"'
    · rw [if_pos isString] at h
      obtain ⟨⟨s, _⟩, _, h⟩ := Result.bind_ok h
      cases h
      exact .flat nofun rfl
    rw [if_neg isString] at h
    by_cases isArray : c = '['
    · rw [if_pos isArray] at h
      split at h
      · cases h
      · split at h
        · cases h
          exact .flat nofun rfl
        · obtain ⟨⟨found, _⟩, read, h⟩ := Result.bind_ok h
          cases h
          exact .array read
    rw [if_neg isArray] at h
    by_cases isObject : c = '\x7b'
    · rw [if_pos isObject] at h
      split at h
      · cases h
      · split at h
        · cases h
          exact .flat nofun rfl
        · obtain ⟨⟨found, _⟩, read, h⟩ := Result.bind_ok h
          cases h
          exact .object read
    rw [if_neg isObject] at h
    split at h
    · obtain ⟨⟨n, _⟩, read, h⟩ := Result.bind_ok h
      cases h
      exact .number read
    · cases h

/-- The induction is on the fuel, for values, items and members at once. -/
theorem reads_numbers {P : Number → Prop} (each : ∀ cs rest n, number strict cs = .ok (n, rest) → P n) (fuel : Nat) :
    (∀ nesting cs json rest, value strict fuel nesting cs = .ok (json, rest) → json.Numbers P) ∧
    (∀ nesting before cs found rest, (∀ item ∈ before, item.Numbers P) →
      items strict fuel nesting before cs = .ok (found, rest) → ∀ item ∈ found, item.Numbers P) ∧
    ∀ nesting before cs found rest, (∀ member ∈ before, (Prod.snd member).Numbers P) →
      members strict fuel nesting before cs = .ok (found, rest) → ∀ member ∈ found, (Prod.snd member).Numbers P := by
  induction fuel with
  | zero => exact ⟨nofun, nofun, nofun⟩
  | succ fuel ih =>
    obtain ⟨ihValue, ihItems, ihMembers⟩ := ih
    refine ⟨?value, ?items, ?members⟩
    case value =>
      intro nesting cs json rest h
      cases value_form h with
      | flat whole parts =>
        refine .intro (fun n same => absurd same (whole n)) ?_
        rw [parts]
        exact List.forall_mem_nil _
      | number read =>
        refine .intro ?_ (List.forall_mem_nil _)
        rintro _ ⟨⟩
        exact each _ _ _ read
      | array read => exact .intro nofun (ihItems _ _ _ _ _ (List.forall_mem_nil _) read)
      | object read =>
        exact .intro nofun (List.forall_mem_map.mpr (ihMembers _ _ _ _ _ (List.forall_mem_nil _) read))
    case items =>
      intro nesting before cs found rest held h
      rw [items] at h
      obtain ⟨⟨item, _⟩, read, h⟩ := Result.bind_ok h
      have all : ∀ other ∈ item :: before, other.Numbers P := List.forall_mem_cons.mpr ⟨ihValue _ _ _ _ read, held⟩
      dsimp only at h
      split at h
      · exact ihItems _ _ _ _ _ all h
      · cases h
        exact fun other member => all other (List.mem_reverse.mp member)
      · exact absurd h unexpected_ne_ok
    case members =>
      intro nesting before cs found rest held h
      rw [members] at h
      split at h
      · obtain ⟨⟨key, _⟩, _, h⟩ := Result.bind_ok h
        dsimp only at h
        split at h
        · obtain ⟨⟨item, _⟩, read, h⟩ := Result.bind_ok h
          have all : ∀ other ∈ (key, item) :: before, (Prod.snd other).Numbers P :=
            List.forall_mem_cons.mpr ⟨ihValue _ _ _ _ read, held⟩
          dsimp only at h
          split at h
          · exact ihMembers _ _ _ _ _ all h
          · cases h
            exact fun other member => all other (List.mem_reverse.mp member)
          · exact absurd h unexpected_ne_ok
        · exact absurd h unexpected_ne_ok
      · exact absurd h unexpected_ne_ok

theorem document_numbers {P : Number → Prop} (each : ∀ cs rest n, number strict cs = .ok (n, rest) → P n)
    {text : String} {json : Json} (h : document strict text = .ok json) : json.Numbers P := by
  obtain ⟨⟨found, rest⟩, read, h⟩ := Result.bind_ok h
  dsimp only at h
  split at h
  · obtain rfl := Result.pure_ok h
    exact (reads_numbers each _).1 _ _ _ _ read
  · cases h

theorem document_inRange {text : String} {json : Json} (h : document strict text = .ok json) : json.InRange := by
  refine (document_numbers (fun cs rest n read => ?_) h).inRange
  rintro m rfl
  rcases number_ok read with ⟨_, ⟨⟩, low, high⟩ | ⟨_, _, _, rounded⟩
  · exact ⟨low, high⟩
  · obtain ⟨bits, same⟩ := double_ok rounded
    cases same

end Reader

theorem sortedItems_eq_map (items : List Json) : sortedItems items = items.map sorted := by
  induction items with
  | nil => rfl
  | cons item rest ih => rw [sortedItems, ih, List.map_cons]

theorem sortedMembers_eq_map (members : List (String × Json)) :
    sortedMembers members = members.map fun member => (member.1, sorted member.2) := by
  induction members with
  | nil => rfl
  | cons member rest ih => rw [sortedMembers, ih, List.map_cons]

theorem Numbers.sorted {P : Number → Prop} {json : Json} (numbers : json.Numbers P) : json.sorted.Numbers P := by
  induction numbers with
  | @intro json number parts ih =>
    cases json with
    | array items =>
      rw [Json.sorted, sortedItems_eq_map]
      exact .intro nofun (List.forall_mem_map.mpr ih)
    | object members =>
      rw [Json.sorted, sortedMembers_eq_map]
      refine .intro nofun (List.forall_mem_map.mpr fun member inside => ?_)
      obtain ⟨written, before, rfl⟩ := List.mem_map.mp (Keyed.mem_ofList inside)
      exact ih _ (List.mem_map_of_mem before)
    | _ => exact .intro number parts

/-- The members of every object in the document are sorted by key. -/
inductive Ordered : Json → Prop where
  | intro {json : Json} (sorted : ∀ members, json = .object members → Keyed.Sorted members)
      (parts : ∀ part ∈ json.parts, Ordered part) : Ordered json

theorem Ordered.sorted {members : List (String × Json)} (ordered : (Json.object members).Ordered) :
    Keyed.Sorted members := by
  cases ordered with
  | intro sorted _ => exact sorted members rfl

theorem sorted_ordered (json : Json) : json.sorted.Ordered := by
  induction json using Json.induction with
  | step json ih =>
    cases json with
    | array items =>
      rw [Json.sorted, sortedItems_eq_map]
      exact .intro nofun (List.forall_mem_map.mpr ih)
    | object members =>
      rw [Json.sorted, sortedMembers_eq_map]
      refine .intro ?_ (List.forall_mem_map.mpr fun member inside => ?_)
      · rintro _ ⟨⟩
        exact Keyed.sorted_ofList _
      · obtain ⟨written, before, rfl⟩ := List.mem_map.mp (Keyed.mem_ofList inside)
        exact ih _ (List.mem_map_of_mem before)
    | _ => exact .intro nofun (List.forall_mem_nil _)

/-- Sorting leaves a document as it is that is sorted already. -/
theorem Ordered.sorted_eq {json : Json} (ordered : json.Ordered) : json.sorted = json := by
  induction ordered with
  | @intro json sorted _ ih =>
    cases json with
    | array items =>
      have same : items.map Json.sorted = items := (List.map_congr_left ih).trans (List.map_id' items)
      rw [Json.sorted, sortedItems_eq_map, same]
    | object members =>
      have same : sortedMembers members = members := by
        rw [sortedMembers_eq_map]
        refine (List.map_congr_left fun member inside => ?_).trans (List.map_id' members)
        rw [ih member.2 (List.mem_map_of_mem inside)]
      rw [Json.sorted, same, ofMembers, Keyed.ofList_sorted (sorted members rfl)]
    | _ => rfl

/-! ### What texts stand for -/

/-- The document that a text stands for, with as many levels of nesting as it has. -/
def meaning (text : String) : Except ReadError Json :=
  (Reader.document ⟨text.length, true, true, true⟩ text).map sorted

/-- A document of a text has numbers as a document holds them, and sorted members. -/
theorem held_of_meaning {text : String} {json : Json} (h : meaning text = .ok json) : json.Held ∧ json.Ordered := by
  obtain ⟨written, read, rfl⟩ := Result.map_ok.mp h
  exact ⟨(Reader.document_numbers (fun _ _ _ => Reader.number_held rfl) read).sorted, sorted_ordered written⟩

theorem ofText_sorted {text : String} {members : List (String × Json)} (h : ofText text = .ok (.object members)) :
    Keyed.Sorted members := by
  unfold ofText at h
  cases known : read text with
  | error e =>
    rw [known] at h
    cases h
  | ok json =>
    rw [known] at h
    cases h
    obtain ⟨written, _, same⟩ := Result.map_ok.mp known
    exact (same ▸ sorted_ordered written).sorted

end TrackedRecord.Json
