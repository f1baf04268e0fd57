import TrackedRecord.Proofs.Value.Equality
import TrackedRecord.Proofs.Value.Plain
import TrackedRecord.Proofs.Wire.Scalar

/-!
# Equality and hashing

What values hand to a hash is the same exactly if they are equal: piece by piece, and as the stream that
the pieces are fed as, if pieces of one sort are fed without prefixes. `Atom.spelled` feeds them as bytes
in this way. Neither equality nor the hash depends on states, at any depth.
-/

namespace TrackedRecord

namespace Value

/-! ### Feeding pieces -/

namespace Atom

/-- Pieces of one sort, which are fed in one way. -/
inductive Alike : Atom → Atom → Prop where
  | kind (m n : Nat) : Alike (.kind m) (.kind n)
  | length (m n : Nat) : Alike (.length m) (.length n)
  | boolean (a b : Bool) : Alike (.boolean a) (.boolean b)
  | int (m n : Int32) : Alike (.int m) (.int n)
  | long (m n : Int64) : Alike (.long m) (.long n)
  | word32 (a b : UInt32) : Alike (.word32 a) (.word32 b)
  | word64 (a b : UInt64) : Alike (.word64 a) (.word64 b)
  | index (m n : Nat) : Alike (.index m) (.index n)
  | bytes (a b : List UInt8) : Alike (.bytes a) (.bytes b)
  | text (a b : String) : Alike (.text a) (.text b)

/-- What is fed for a piece can be told from what is fed for another of its sort, whatever comes later. -/
def PrefixFree {τ : Type} (valid : Atom → Prop) (feed : Atom → List τ) : Prop :=
  ∀ ⦃x y : Atom⦄, Alike x y → valid x → valid y →
    ∀ ⦃s t : List τ⦄, feed x ++ s = feed y ++ t → x = y ∧ s = t

end Atom

variable {τ : Type} {valid : Atom → Prop} {feed : Atom → List τ}

/-- Valid pieces that give one stream, with what follows them. -/
structure Meets (valid : Atom → Prop) (feed : Atom → List τ) (xs : List Atom) (s : List τ) (ys : List Atom)
    (t : List τ) : Prop where
  left : ∀ x ∈ xs, valid x
  right : ∀ y ∈ ys, valid y
  stream : xs.flatMap feed ++ s = ys.flatMap feed ++ t

theorem Meets.cons {x y : Atom} {xs ys : List Atom} {s t : List τ} (free : Atom.PrefixFree valid feed)
    (alike : Atom.Alike x y) (meets : Meets valid feed (x :: xs) s (y :: ys) t) :
    x = y ∧ Meets valid feed xs s ys t := by
  obtain ⟨validX, left⟩ := List.forall_mem_cons.mp meets.left
  obtain ⟨validY, right⟩ := List.forall_mem_cons.mp meets.right
  have stream := meets.stream
  rw [List.flatMap_cons, List.flatMap_cons, List.append_assoc, List.append_assoc] at stream
  obtain ⟨same, rest⟩ := free alike validX validY stream
  exact ⟨same, left, right, rest⟩

/-- Whatever meets the pieces of the value starts with those of an equal one. -/
def Splits {α : Type} (valid : Atom → Prop) (feed : Atom → List τ) (content : α → List Atom)
    (same : α → α → Bool) (a : α) : Prop :=
  ∀ ⦃b : α⦄ ⦃xs ys : List Atom⦄ ⦃s t : List τ⦄, Meets valid feed (content a ++ xs) s (content b ++ ys) t →
    same a b = true ∧ Meets valid feed xs s ys t

/-! ### What is fed for a value -/

def kindNumber : Value → Nat
  | .null => 0
  | .boolean _ => 1
  | .int _ => 2
  | .long _ => 3
  | .float _ => 4
  | .double _ => 5
  | .bytes _ => 6
  | .string _ => 7
  | .enum _ => 8
  | .fixed _ => 9
  | .record _ => 10
  | .array _ => 11
  | .map _ => 12
  | .union _ _ => 13

theorem content_cons (value : Value) : ∃ parts, value.content = .kind value.kindNumber :: parts := by
  cases value <;> exact ⟨_, rfl⟩

theorem kinds_agree (free : Atom.PrefixFree valid feed) {a b : Value} {xs ys : List Atom} {s t : List τ}
    (meets : Meets valid feed (a.content ++ xs) s (b.content ++ ys) t) : a.kindNumber = b.kindNumber := by
  obtain ⟨parts, first⟩ := a.content_cons
  obtain ⟨parts', first'⟩ := b.content_cons
  rw [first, first'] at meets
  exact Atom.kind.inj (meets.cons free (.kind _ _)).1

theorem splits_all {as : List Value}
    (each : ∀ a ∈ as, Splits valid feed content same a) {bs : List Value} (length : as.length = bs.length)
    {xs ys : List Atom} {s t : List τ}
    (meets : Meets valid feed (contentAll as ++ xs) s (contentAll bs ++ ys) t) :
    sameAll as bs = true ∧ Meets valid feed xs s ys t := by
  induction as generalizing bs with
  | nil =>
    obtain rfl := List.eq_nil_of_length_eq_zero length.symm
    exact ⟨rfl, meets⟩
  | cons a as ih =>
    cases bs with
    | nil => cases length
    | cons b bs =>
      rw [contentAll, contentAll, List.append_assoc, List.append_assoc] at meets
      obtain ⟨first, meets⟩ := each a List.mem_cons_self meets
      have others := fun a later => each a (List.mem_cons_of_mem _ later)
      obtain ⟨rest, meets⟩ := ih others (Nat.succ.inj length) meets
      exact ⟨sameAll_cons.mpr ⟨first, rest⟩, meets⟩

theorem splits_entries (free : Atom.PrefixFree valid feed) {as : List (String × Value)}
    (each : ∀ entry ∈ as, Splits valid feed content same (Prod.snd entry)) {bs : List (String × Value)}
    (length : as.length = bs.length) {xs ys : List Atom} {s t : List τ}
    (meets : Meets valid feed (contentEntries as ++ xs) s (contentEntries bs ++ ys) t) :
    sameEntries as bs = true ∧ Meets valid feed xs s ys t := by
  induction as generalizing bs with
  | nil =>
    obtain rfl := List.eq_nil_of_length_eq_zero length.symm
    exact ⟨rfl, meets⟩
  | cons entry as ih =>
    cases bs with
    | nil => cases length
    | cons entry' bs =>
      obtain ⟨key, a⟩ := entry
      obtain ⟨key', b⟩ := entry'
      rw [contentEntries, contentEntries, List.cons_append, List.cons_append, List.cons_append,
        List.cons_append, List.append_assoc, List.append_assoc] at meets
      obtain ⟨keys, meets⟩ := meets.cons free (.text _ _)
      obtain ⟨first, meets⟩ := each (key, a) List.mem_cons_self meets
      have others := fun a later => each a (List.mem_cons_of_mem _ later)
      obtain ⟨rest, meets⟩ := ih others (Nat.succ.inj length) meets
      exact ⟨sameEntries_cons.mpr ⟨Atom.text.inj keys, first, rest⟩, meets⟩

theorem splits_record (free : Atom.PrefixFree valid feed) {r : Record Value}
    (each : ∀ slot ∈ r.slots, Splits valid feed content same slot) :
    Splits valid feed Record.content Record.same r := by
  intro r' xs ys s t meets
  obtain ⟨names, meets⟩ := meets.cons free (.text _ _)
  obtain ⟨lengths, meets⟩ := meets.cons free (.length _ _)
  obtain ⟨slots, meets⟩ := splits_all each (Atom.length.inj lengths) meets
  exact ⟨same_record.mpr ⟨Atom.text.inj names, slots⟩, meets⟩

theorem splits_map (free : Atom.PrefixFree valid feed) {m : StateMap Value}
    (each : ∀ entry ∈ m.entries, Splits valid feed content same (Prod.snd entry)) :
    Splits valid feed StateMap.content StateMap.same m := by
  intro m' xs ys s t meets
  obtain ⟨lengths, meets⟩ := meets.cons free (.length _ _)
  exact splits_entries free each (Atom.length.inj lengths) meets

theorem splits (free : Atom.PrefixFree valid feed) (value : Value) : Splits valid feed content same value := by
  induction value using Value.induction with
  | null =>
    intro b xs ys s t meets
    have kinds := kinds_agree free meets
    cases b with
    | null => exact ⟨rfl, (meets.cons free (.kind _ _)).2⟩
    | _ => cases kinds
  | record layout slots dirty readable ih =>
    intro b xs ys s t meets
    have kinds := kinds_agree free meets
    cases b with
    | record r' =>
      have each : ∀ slot ∈ (⟨layout, slots, dirty, readable⟩ : Record Value).slots, _ := ih
      exact splits_record free each (meets.cons free (.kind _ _)).2
    | _ => cases kinds
  | array items ih =>
    intro b xs ys s t meets
    have kinds := kinds_agree free meets
    cases b with
    | array items' =>
      obtain ⟨lengths, meets⟩ := (meets.cons free (.kind _ _)).2.cons free (.length _ _)
      exact splits_all ih (Atom.length.inj lengths) meets
    | _ => cases kinds
  | map entries states ih =>
    intro b xs ys s t meets
    have kinds := kinds_agree free meets
    cases b with
    | map m' =>
      have each : ∀ entry ∈ (⟨entries, states⟩ : StateMap Value).entries, _ := ih
      exact splits_map free each (meets.cons free (.kind _ _)).2
    | _ => cases kinds
  | union branch value ih =>
    intro b xs ys s t meets
    have kinds := kinds_agree free meets
    cases b with
    | union branch' value' =>
      obtain ⟨branches, meets⟩ := (meets.cons free (.kind _ _)).2.cons free (.index _ _)
      obtain ⟨inner, meets⟩ := ih meets
      rw [same, Atom.index.inj branches, beq_self_eq_true]
      exact ⟨inner, meets⟩
    | _ => cases kinds
  | _ =>
    intro b xs ys s t meets
    have kinds := kinds_agree free meets
    cases b <;> first
      | obtain ⟨atoms, rest⟩ := (meets.cons free (.kind _ _)).2.cons free (by constructor)
        cases atoms
        exact ⟨same_refl _, rest⟩
      | cases kinds

/-! ### Equal values -/

theorem contentAll_of_same {as bs : List Value} (each : ∀ a ∈ as, ∀ b, a.same b = true → a.content = b.content)
    (same : sameAll as bs = true) : contentAll as = contentAll bs := by
  induction as generalizing bs with
  | nil =>
    cases bs with
    | nil => rfl
    | cons b bs => cases same
  | cons a as ih =>
    cases bs with
    | nil => cases same
    | cons b bs =>
      obtain ⟨first, rest⟩ := sameAll_cons.mp same
      rw [contentAll, contentAll, each a List.mem_cons_self b first,
        ih (fun a later => each a (List.mem_cons_of_mem _ later)) rest]

theorem contentEntries_of_same {as bs : List (String × Value)}
    (each : ∀ entry ∈ as, ∀ b, (Prod.snd entry).same b = true → entry.2.content = b.content)
    (same : sameEntries as bs = true) : contentEntries as = contentEntries bs := by
  induction as generalizing bs with
  | nil =>
    cases bs with
    | nil => rfl
    | cons entry bs => cases same
  | cons entry as ih =>
    cases bs with
    | nil => cases same
    | cons entry' bs =>
      obtain ⟨key, a⟩ := entry
      obtain ⟨key', b⟩ := entry'
      obtain ⟨rfl, first, rest⟩ := sameEntries_cons.mp same
      rw [contentEntries, contentEntries, each (key, a) List.mem_cons_self b first,
        ih (fun entry later => each entry (List.mem_cons_of_mem _ later)) rest]

theorem record_content {r r' : Record Value}
    (each : ∀ slot ∈ r.slots, ∀ b, slot.same b = true → slot.content = b.content) (same : r.same r' = true) :
    r.content = r'.content := by
  obtain ⟨names, slots⟩ := same_record.mp same
  rw [Record.content, Record.content, names, sameAll_length slots, contentAll_of_same each slots]

theorem map_content {m m' : StateMap Value}
    (each : ∀ entry ∈ m.entries, ∀ b, (Prod.snd entry).same b = true → entry.2.content = b.content)
    (same : m.same m' = true) : m.content = m'.content := by
  rw [StateMap.content, StateMap.content, sameEntries_length same, contentEntries_of_same each same]

theorem content_of_same (value b : Value) (same : value.same b = true) : value.content = b.content := by
  induction value using Value.induction generalizing b with
  | record layout slots dirty readable ih =>
    cases b with
    | record r' =>
      have each : ∀ slot ∈ (⟨layout, slots, dirty, readable⟩ : Record Value).slots, _ := ih
      exact congrArg (Atom.kind 10 :: ·) (record_content each same)
    | _ => cases same
  | array items ih =>
    cases b with
    | array items' => rw [content, content, sameAll_length same, contentAll_of_same ih same]
    | _ => cases same
  | map entries states ih =>
    cases b with
    | map m' =>
      have each : ∀ entry ∈ (⟨entries, states⟩ : StateMap Value).entries, _ := ih
      exact congrArg (Atom.kind 12 :: ·) (map_content each same)
    | _ => cases same
  | union branch value ih =>
    cases b with
    | union branch' value' =>
      rw [Value.same, Bool.and_eq_true, beq_iff_eq] at same
      rw [content, content, same.1, ih value' same.2]
    | _ => cases same
  | _ => cases b <;> first | rfl | cases same | rw [content, content, eq_of_beq same]

/-! ### Equality as a relation -/

/-- Equality and hashing agree, and neither sees what `plain` forgets. -/
structure Structural {α : Type} (same : α → α → Bool) (content : α → List Atom) (plain : α → Value) :
    Prop where
  equivalence : Equivalence fun a b => same a b = true
  stateless : ∀ {a a' b b' : α}, plain a = plain a' → plain b = plain b' → same a b = same a' b'
  hashed : ∀ a b : α, content a = content b ↔ same a b = true
  /-- Whatever follows, what is fed for equal values is the same, and only for them. -/
  fed : ∀ {τ : Type} {valid : Atom → Prop} {feed : Atom → List τ}, Atom.PrefixFree valid feed →
    ∀ a b : α, (∀ atom ∈ content a, valid atom) → (∀ atom ∈ content b, valid atom) → ∀ s t : List τ,
      (content a).flatMap feed ++ s = (content b).flatMap feed ++ t ↔ same a b = true ∧ s = t

theorem prefixFree_pure : Atom.PrefixFree (fun _ => True) fun atom => [atom] := by
  intro x y _ _ _ s t stream
  exact List.cons_eq_cons.mp stream

/-- What can be split off a stream and is handed over alike if equal is fed alike only if equal. -/
theorem Splits.fed_iff {α : Type} {content : α → List Atom} {same : α → α → Bool} {a b : α}
    (splits : Splits valid feed content same a) (hashes : same a b = true → content a = content b)
    (left : ∀ atom ∈ content a, valid atom) (right : ∀ atom ∈ content b, valid atom) (s t : List τ) :
    (content a).flatMap feed ++ s = (content b).flatMap feed ++ t ↔ same a b = true ∧ s = t := by
  constructor
  · intro stream
    have meets : Meets valid feed (content a ++ []) s (content b ++ []) t := by
      rw [List.append_nil, List.append_nil]
      exact ⟨left, right, stream⟩
    obtain ⟨equal, rest⟩ := splits meets
    exact ⟨equal, rest.stream⟩
  · rintro ⟨equal, rfl⟩
    rw [hashes equal]

theorem Splits.hashed_iff {α : Type} {content : α → List Atom} {same : α → α → Bool} {a b : α}
    (splits : Splits (fun _ => True) (fun atom => [atom]) content same a)
    (hashes : same a b = true → content a = content b) : content a = content b ↔ same a b = true := by
  refine ⟨fun equal => ?_, hashes⟩
  have stream : (content a).flatMap (fun atom => [atom]) ++ [] =
      (content b).flatMap (fun atom => [atom]) ++ [] := by rw [equal]
  exact ((splits.fed_iff hashes (fun _ _ => trivial) (fun _ _ => trivial) [] []).mp stream).1

/-- What can be split off any stream, hashed alike and told by its plain form is equal by structure. -/
theorem Structural.of_splits {α : Type} {same : α → α → Bool} {content : α → List Atom} {plain : α → Value}
    (splits : ∀ {τ : Type} {valid : Atom → Prop} {feed : Atom → List τ}, Atom.PrefixFree valid feed →
      ∀ a, Splits valid feed content same a)
    (hashes : ∀ a b, same a b = true → content a = content b)
    (plainly : ∀ a b, plain a = plain b → content a = content b) :
    Structural same content plain := by
  have hashed (a b : α) : content a = content b ↔ same a b = true :=
    (splits prefixFree_pure a).hashed_iff (hashes a b)
  refine ⟨⟨fun a => (hashed a a).mp rfl, fun ab => ?_, fun ab bc => ?_⟩, fun first second => ?_, hashed,
    fun free a b left right => (splits free a).fed_iff (hashes a b) left right⟩
  · exact (hashed _ _).mp ((hashed _ _).mpr ab).symm
  · exact (hashed _ _).mp (((hashed _ _).mpr ab).trans ((hashed _ _).mpr bc))
  · rw [Bool.eq_iff_iff, ← hashed, ← hashed, plainly _ _ first, plainly _ _ second]

theorem content_of_plain {a b : Value} (plain : a.plain = b.plain) : a.content = b.content := by
  rw [← content_of_same _ _ (plain_same a), plain, content_of_same _ _ (plain_same b)]

/-! ### Pieces as bytes -/

namespace Atom

/-- The piece in bytes: numbers and lengths in full width, a length before bytes, a mark after a text. -/
def spelled : Atom → List UInt8
  | .kind n => Wire.littleEndian 1 n
  | .length n => Wire.littleEndian 8 n
  | .boolean b => Wire.encodeBoolean b
  | .int n => Wire.encodeInt32 n
  | .long n => Wire.encodeInt64 n
  | .word32 bits => Wire.encodeFloat32 bits
  | .word64 bits => Wire.encodeFloat64 bits
  | .index n => Wire.littleEndian 8 n
  | .bytes data => Wire.littleEndian 8 data.length ++ data
  | .text s => Utf8.encode s ++ [0xff]

/-- The numbers of the piece fit into the width they are spelled in. -/
def Fits : Atom → Prop
  | .kind n => n < Nat.pow 0x100 1
  | .length n | .index n => n < Nat.pow 0x100 8
  | .bytes data => data.length < Nat.pow 0x100 8
  | _ => True

theorem eq_of_reads {α : Type} {d : Wire.Decoder α} {bytes bytes' : List UInt8} {a b : α}
    (first : Wire.Reads d bytes a) (second : Wire.Reads d bytes' b) {s t : List UInt8}
    (stream : bytes ++ s = bytes' ++ t) : a = b ∧ s = t := by
  have run := first s 0
  rw [stream, second t 0] at run
  injection run with values cursors
  injection cursors with rests
  exact ⟨values.symm, rests.symm⟩

/-- A mark that neither front holds ends both. -/
theorem eq_of_marked {mark : UInt8} {xs ys s t : List UInt8} (left : mark ∉ xs) (right : mark ∉ ys)
    (stream : xs ++ mark :: s = ys ++ mark :: t) : xs = ys ∧ s = t := by
  induction xs generalizing ys with
  | nil =>
    cases ys with
    | nil => exact ⟨rfl, (List.cons.inj stream).2⟩
    | cons y ys => exact (right ((List.cons.inj stream).1 ▸ List.mem_cons_self)).elim
  | cons x xs ih =>
    cases ys with
    | nil => exact (left ((List.cons.inj stream).1 ▸ List.mem_cons_self)).elim
    | cons y ys =>
      obtain ⟨rfl, rest⟩ := List.cons.inj stream
      obtain ⟨rfl, last⟩ := ih (fun later => left (List.mem_cons_of_mem _ later))
        (fun later => right (List.mem_cons_of_mem _ later)) rest
      exact ⟨rfl, last⟩

theorem ofNat_ne_mark {n : Nat} (small : n < 0xff) : (0xff : UInt8) ≠ UInt8.ofNat n := by
  intro same
  have value := congrArg UInt8.toNat same
  rw [UInt8.toNat_ofNat_of_lt' (Nat.lt_of_lt_of_le small (by decide))] at value
  exact Nat.ne_of_gt small value

/-- No character is spelled with the greatest byte. -/
theorem mark_notMem_char (c : Char) : 0xff ∉ String.utf8EncodeChar c := by
  unfold String.utf8EncodeChar
  dsimp only
  split
  · simp only [List.mem_cons, List.not_mem_nil, or_false]
    exact ofNat_ne_mark (by omega)
  · split
    · simp only [List.mem_cons, List.not_mem_nil, or_false, not_or]
      exact ⟨ofNat_ne_mark (by omega), ofNat_ne_mark (by omega)⟩
    · split
      · simp only [List.mem_cons, List.not_mem_nil, or_false, not_or]
        exact ⟨ofNat_ne_mark (by omega), ofNat_ne_mark (by omega), ofNat_ne_mark (by omega)⟩
      · simp only [List.mem_cons, List.not_mem_nil, or_false, not_or]
        exact ⟨ofNat_ne_mark (by omega), ofNat_ne_mark (by omega), ofNat_ne_mark (by omega),
          ofNat_ne_mark (by omega)⟩

theorem mark_notMem_text (s : String) : 0xff ∉ Utf8.encode s := by
  have chars : Utf8.encode s = s.toList.flatMap String.utf8EncodeChar := by
    rw [Utf8.encode, String.toUTF8_eq_toByteArray, ← String.utf8Encode_toList, List.utf8Encode]
    simp
  rw [chars]
  intro member
  obtain ⟨c, _, found⟩ := List.mem_flatMap.mp member
  exact mark_notMem_char c found

theorem spelled_prefixFree : PrefixFree Fits spelled := by
  intro x y alike fits fits' s t stream
  cases alike with
  | kind | length | index =>
    obtain ⟨rfl, rest⟩ :=
      eq_of_reads (Wire.Decoder.fixedWidth_reads fits) (Wire.Decoder.fixedWidth_reads fits') stream
    exact ⟨rfl, rest⟩
  | boolean a b =>
    obtain ⟨rfl, rest⟩ := eq_of_reads (Wire.Decoder.boolean_reads a) (Wire.Decoder.boolean_reads b) stream
    exact ⟨rfl, rest⟩
  | int m n =>
    obtain ⟨rfl, rest⟩ := eq_of_reads (Wire.Decoder.int32_reads m) (Wire.Decoder.int32_reads n) stream
    exact ⟨rfl, rest⟩
  | long m n =>
    obtain ⟨rfl, rest⟩ := eq_of_reads (Wire.Decoder.int64_reads m) (Wire.Decoder.int64_reads n) stream
    exact ⟨rfl, rest⟩
  | word32 a b =>
    obtain ⟨rfl, rest⟩ := eq_of_reads (Wire.Decoder.float32_reads a) (Wire.Decoder.float32_reads b) stream
    exact ⟨rfl, rest⟩
  | word64 a b =>
    obtain ⟨rfl, rest⟩ := eq_of_reads (Wire.Decoder.float64_reads a) (Wire.Decoder.float64_reads b) stream
    exact ⟨rfl, rest⟩
  | bytes a b =>
    rw [spelled, spelled, List.append_assoc, List.append_assoc] at stream
    obtain ⟨lengths, rest⟩ :=
      eq_of_reads (Wire.Decoder.fixedWidth_reads fits) (Wire.Decoder.fixedWidth_reads fits') stream
    obtain ⟨rfl, last⟩ := List.append_inj rest lengths
    exact ⟨rfl, last⟩
  | text a b =>
    rw [spelled, spelled, List.append_assoc, List.append_assoc] at stream
    obtain ⟨bytes, rest⟩ := eq_of_marked (mark_notMem_text a) (mark_notMem_text b) stream
    have texts := congrArg Utf8.decode? bytes
    rw [Utf8.decode?_encode, Utf8.decode?_encode] at texts
    exact ⟨congrArg _ (Option.some.inj texts), rest⟩

end Atom

/-! ### Main result -/

/-- Values, maps and records are equal by structure exactly if they are hashed alike, whatever their states.
Floating-point numbers are equal if their bits are. -/
theorem equality_structural :
    Structural same content plain ∧
      Structural StateMap.same StateMap.content (fun m => (Value.map m).plain) ∧
      Structural Record.same Record.content (fun r => (Value.record r).plain) ∧
      (∀ bits bits' : UInt32, (float bits).same (.float bits') = true ↔ bits = bits') ∧
      ∀ bits bits' : UInt64, (double bits).same (.double bits') = true ↔ bits = bits' := by
  refine ⟨?values, ?maps, ?records, fun _ _ => beq_iff_eq, fun _ _ => beq_iff_eq⟩
  case values =>
    exact .of_splits splits content_of_same fun a b => content_of_plain
  case maps =>
    refine .of_splits (fun free m => splits_map free fun entry _ => splits free entry.2)
      (fun m m' same => map_content (fun entry _ => content_of_same entry.2) same) fun m m' plain => ?_
    exact (List.cons.inj (content_of_plain plain)).2
  case records =>
    refine .of_splits (fun free r => splits_record free fun slot _ => splits free slot)
      (fun r r' same => record_content (fun slot _ => content_of_same slot) same) fun r r' plain => ?_
    exact (List.cons.inj (content_of_plain plain)).2

namespace Sample

def layout : Layout :=
  ⟨"Sample", "Sample", none, Layout.fieldsOf [⟨"ratio", .primitive .float⟩, ⟨"counts", .map (.primitive .int)⟩]⟩

/-- A record of a number that is none and a map with one entry. -/
def value (ratio : UInt32) (states : List (String × EntryState)) (dirty : FieldBits) : Value :=
  .record ⟨layout, [.float ratio, .map ⟨[("k", .int 1)], states⟩], dirty, layout.selectAll⟩

theorem value_fits (ratio : UInt32) (states : List (String × EntryState)) (dirty : FieldBits) :
    ∀ atom ∈ (value ratio states dirty).content, atom.Fits := by
  simp [value, content, contentAll, contentEntries, Atom.Fits]

end Sample

/-- States change nothing; other bits of a number that is none do. -/
theorem equality_structural_nan :
    (Sample.value 0x7fc00001 [("k", .updated)] ((FieldBits.new 2).set 1)).content.flatMap Atom.spelled =
        (Sample.value 0x7fc00001 [] (FieldBits.new 2)).content.flatMap Atom.spelled ∧
      (Sample.value 0x7fc00001 [] (FieldBits.new 2)).content.flatMap Atom.spelled ≠
        (Sample.value 0x7fc00002 [] (FieldBits.new 2)).content.flatMap Atom.spelled := by
  have fed (ratio ratio' : UInt32) (states : List (String × EntryState)) (dirty : FieldBits) :=
    equality_structural.1.fed Atom.spelled_prefixFree (Sample.value ratio states dirty)
      (Sample.value ratio' [] (FieldBits.new 2)) (Sample.value_fits _ _ _) (Sample.value_fits _ _ _) [] []
  simp only [List.append_nil, and_true] at fed
  constructor
  · exact (fed _ _ _ _).mpr rfl
  · intro same
    exact absurd ((fed _ _ _ _).mp same) (by decide)

end Value
end TrackedRecord
