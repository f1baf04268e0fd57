import TrackedRecord.Proofs.Wire.Slice.Reader

/-!
# Spellings of numbers

The reader accepts exactly the groups of at most ten bytes that spell a word; of those that spell one number, the
written one is the shortest. Numbers are written and read by shifts of words, none of which
loses a bit of what is read.
-/

namespace TrackedRecord.Wire

/-! ### Spellings -/

namespace Varint

/-- The bytes are an accepted spelling of the word `v`. -/
structure Spells (bytes : List UInt8) (v : Nat) : Prop where
  group : Group bytes
  length : bytes.length ≤ 10
  number : number bytes = v
  word : v < wordBound

/-- Where every byte goes on, no group is at the front. -/
theorem Group.not_prefix {group bytes : List UInt8} (whole : Group group) (front : group <+: bytes) :
    ¬∀ b ∈ bytes, goesOn b = true := by
  obtain ⟨init, last, rfl, _, ends⟩ := whole
  intro each
  have goes := each last (front.subset (List.mem_append_right init List.mem_cons_self))
  rw [ends] at goes
  cases goes

/-- A number has one spelling of each length. -/
theorem Group.unique {a b : List UInt8} (groupA : Group a) (groupB : Group b) (length : a.length = b.length)
    (same : number a = number b) : a = b := by
  induction a generalizing b with
  | nil => exact (not_group_nil groupA).elim
  | cons x xs ih =>
    cases b with
    | nil => cases length
    | cons y ys =>
      rw [number_cons, number_cons] at same
      have smallX := x.toNat_lt
      have smallY := y.toNat_lt
      rcases group_cons.mp groupA with ⟨endsX, rfl⟩ | ⟨goesX, groupXs⟩ <;>
        rcases group_cons.mp groupB with ⟨endsY, rfl⟩ | ⟨goesY, groupYs⟩
      · rw [UInt8.toNat_inj.mp (show x.toNat = y.toNat by omega)]
      · obtain rfl := List.eq_nil_of_length_eq_zero (Nat.succ.inj length).symm
        exact (not_group_nil groupYs).elim
      · obtain rfl := List.eq_nil_of_length_eq_zero (Nat.succ.inj length)
        exact (not_group_nil groupXs).elim
      · rw [UInt8.toNat_inj.mp (show x.toNat = y.toNat by omega),
          ih groupXs groupYs (Nat.succ.inj length) (by omega)]

/-! ### Reading -/

/-- The bytes end before a group of fewer than `limit` of them does. -/
structure Unfinished (limit : Nat) (bytes : List UInt8) : Prop where
  short : bytes.length < limit
  each : ∀ b ∈ bytes, goesOn b = true

theorem unfinished_cons {limit : Nat} {b : UInt8} {rest : List UInt8} :
    Unfinished (limit + 1) (b :: rest) ↔ goesOn b = true ∧ Unfinished limit rest := by
  constructor
  · rintro ⟨short, each⟩
    rw [List.forall_mem_cons] at each
    exact ⟨each.1, Nat.lt_of_succ_lt_succ short, each.2⟩
  · rintro ⟨goes, short, each⟩
    exact ⟨Nat.succ_lt_succ short, List.forall_mem_cons.mpr ⟨goes, each⟩⟩

end Varint

namespace Decoder

open Varint (Spells Unfinished goesOn_iff unfinished_cons)

theorem map_error {α β : Type} {d : Decoder α} {f : α → β} {c c' : Cursor} {e : Error}
    (h : (do let a ← d; return f a) c = .error e c') : d c = .error e c' := by
  cases run : d c with
  | ok a c₁ =>
    rw [bind_of_ok run] at h
    cases h
  | error e₁ c₁ =>
    rw [bind_of_error run] at h
    cases h
    rfl

theorem varintGroups_error {start left : Nat} {c c' : Cursor} {e : Error}
    (failed : varintGroups start left c = .error e c') :
    (e.kind = .truncated ∧ Unfinished left c.rest) ∨
      (e.kind = .malformed ∧ e.offset = some start ∧ ¬Unfinished left c.rest) := by
  induction left generalizing c with
  | zero =>
    cases failed
    exact Or.inr ⟨rfl, rfl, fun cut => Nat.not_lt_zero _ cut.short⟩
  | succ left ih =>
    rw [varintGroups_succ] at failed
    obtain ⟨rest, pos⟩ := c
    cases rest with
    | nil =>
      rw [bind_of_error (show byte ⟨[], pos⟩ = .error (.truncated pos 1) ⟨[], pos⟩ from rfl)] at failed
      cases failed
      exact Or.inl ⟨rfl, Nat.zero_lt_succ left, List.forall_mem_nil _⟩
    | cons b rest =>
      rw [bind_of_ok (show byte ⟨b :: rest, pos⟩ = .ok b ⟨rest, pos + 1⟩ from rfl)] at failed
      simp only [unfinished_cons]
      split at failed
      · rename_i excess
        cases failed
        exact Or.inr ⟨rfl, rfl, fun cut => Nat.not_lt_zero _ (excess.1 ▸ cut.2.short)⟩
      · split at failed
        · cases failed
        · rename_i goes
          simpa only [goesOn_iff.mpr goes, true_and] using ih (map_error failed)

/-- The bound of ten groups is that of a word. -/
theorem varint_ok_iff {c c' : Cursor} {v : Nat} :
    varint c = .ok v c' ↔
      ∃ bytes, Spells bytes v ∧ c.rest = bytes ++ c'.rest ∧ c'.pos = c.pos + bytes.length := by
  constructor
  · intro h
    unfold varint at h
    rw [position_bind] at h
    obtain ⟨bytes, group, length, spelled, word, front, moved⟩ := varintGroups_ok h
    exact ⟨bytes, ⟨group, length, spelled, word⟩, front, moved⟩
  · rintro ⟨bytes, ⟨group, length, rfl, word⟩, front, moved⟩
    obtain ⟨rest, pos⟩ := c
    obtain ⟨rest', pos'⟩ := c'
    dsimp only at front moved
    subst front moved
    exact Reads.position (fun start => varintGroups_reads start group length word) rest' pos

theorem varint_error {c c' : Cursor} {e : Error} (failed : varint c = .error e c') :
    (e.kind = .truncated ∧ Unfinished 10 c.rest) ∨
      (e.kind = .malformed ∧ e.offset = some c.pos ∧ ¬Unfinished 10 c.rest) :=
  varintGroups_error failed

theorem varint_truncated_iff {c : Cursor} :
    (∃ e c', varint c = .error e c' ∧ e.kind = .truncated) ↔ Unfinished 10 c.rest := by
  constructor
  · rintro ⟨e, c', failed, kind⟩
    rcases varint_error failed with ⟨_, cut⟩ | ⟨other, _⟩
    · exact cut
    · rw [kind] at other
      cases other
  · intro cut
    cases run : varint c with
    | ok v c' =>
      obtain ⟨bytes, spells, front, _⟩ := varint_ok_iff.mp run
      exact (spells.group.not_prefix ⟨_, front.symm⟩ cut.each).elim
    | error e c' =>
      rcases varint_error run with ⟨kind, _⟩ | ⟨_, _, whole⟩
      · exact ⟨e, c', rfl, kind⟩
      · exact (whole cut).elim

theorem varint_malformed_iff {c : Cursor} :
    (∃ e c', varint c = .error e c' ∧ e.kind = .malformed ∧ e.offset = some c.pos) ↔
      (¬∃ bytes v, bytes <+: c.rest ∧ Spells bytes v) ∧ ¬Unfinished 10 c.rest := by
  constructor
  · rintro ⟨e, c', failed, kind, _⟩
    refine ⟨?_, fun cut => ?_⟩
    · rintro ⟨bytes, v, ⟨rest, front⟩, spells⟩
      have run : varint c = .ok v ⟨rest, c.pos + bytes.length⟩ :=
        varint_ok_iff.mpr ⟨bytes, spells, front.symm, rfl⟩
      rw [run] at failed
      cases failed
    · obtain ⟨e', c'', failed', kind'⟩ := varint_truncated_iff.mpr cut
      rw [failed] at failed'
      cases failed'
      rw [kind] at kind'
      cases kind'
  · rintro ⟨unspelled, whole⟩
    cases run : varint c with
    | ok v c' =>
      obtain ⟨bytes, spells, front, _⟩ := varint_ok_iff.mp run
      exact (unspelled ⟨bytes, v, ⟨_, front.symm⟩, spells⟩).elim
    | error e c' =>
      rcases varint_error run with ⟨_, cut⟩ | ⟨kind, offset, _⟩
      · exact (whole cut).elim
      · exact ⟨e, c', rfl, kind, offset⟩

end Decoder

/-! ### Writing -/

namespace Varint

theorem shiftRight_toNat (v : UInt64) : (v >>> 7).toNat = v.toNat / 0x80 := by
  rw [UInt64.toNat_shiftRight]
  exact Nat.shiftRight_eq_div_pow v.toNat 7

/-- The written form by shifts of the word. -/
def shifted (v : UInt64) : List UInt8 :=
  if 0x80 ≤ v then (v.toUInt8 &&& 0x7F ||| 0x80) :: shifted (v >>> 7) else [v.toUInt8]
termination_by v.toNat
decreasing_by
  rename_i large
  have positive : 0x80 ≤ v.toNat := UInt64.le_iff_toNat_le.mp large
  rw [shiftRight_toNat]
  omega

/-- A byte that goes on, from the lowest bits of a word. -/
theorem lowest_group (v : UInt64) :
    (v.toUInt8 &&& 0x7F ||| 0x80) = UInt8.ofNat (v.toNat % 0x80 + 0x80) := by
  have low : (v.toUInt8 &&& 0x7F).toNat = v.toNat % 0x80 := by
    rw [UInt8.toNat_and, UInt64.toNat_toUInt8]
    exact (Nat.and_two_pow_sub_one_eq_mod _ 7).trans (Nat.mod_mod_of_dvd _ (by decide))
  have joined := Nat.two_pow_add_eq_or_of_lt (show v.toNat % 0x80 < 2 ^ 7 by omega) 1
  apply UInt8.toNat_inj.mp
  rw [UInt8.toNat_or, low, UInt8.toNat_ofNat_of_lt' (show _ < 0x100 by omega), Nat.or_comm, Nat.add_comm]
  exact joined.symm

theorem shifted_eq_groups {more : Nat} {v : UInt64} (small : v.toNat < 2 * Nat.pow 0x80 more) :
    shifted v = groups more v.toNat := by
  induction more generalizing v with
  | zero =>
    have few : ¬0x80 ≤ v := by
      rw [UInt64.le_iff_toNat_le, Nat.not_le]
      exact Nat.lt_trans small (by decide)
    rw [shifted, if_neg few]
    rfl
  | succ more ih =>
    rw [shifted, groups]
    by_cases few : v.toNat < 0x80
    · rw [if_pos few, if_neg (by rw [UInt64.le_iff_toNat_le]; exact Nat.not_le.mpr few)]
      rfl
    · have rest : (v >>> 7).toNat < 2 * Nat.pow 0x80 more := by
        rw [shiftRight_toNat]
        simp only [Nat.pow_eq, Nat.pow_succ] at small ⊢
        omega
      rw [if_neg few, if_pos (by rw [UInt64.le_iff_toNat_le]; exact Nat.not_lt.mp few), lowest_group, ih rest,
        shiftRight_toNat]

theorem shifted_eq_encode (v : UInt64) : shifted v = encode v := shifted_eq_groups v.toNat_lt

theorem ofNat_toNat (v : UInt64) : ofNat v.toNat = encode v := by
  rw [ofNat, UInt64.ofNat_toNat]

theorem encode_reads (v : UInt64) : Reads Decoder.varint (encode v) v.toNat :=
  ofNat_toNat v ▸ Decoder.varint_reads v.toNat_lt

theorem encode_spells (v : UInt64) : Spells (encode v) v.toNat := by
  obtain ⟨bytes, spells, front, moved⟩ := Decoder.varint_ok_iff.mp (encode_reads v [] 0)
  obtain ⟨same, _⟩ := List.append_inj' front rfl
  rwa [same]

/-- Any other accepted spelling of a number is longer than the written one. -/
theorem encode_shortest {v : UInt64} {bytes : List UInt8} (spells : Spells bytes v.toNat) :
    bytes = encode v ∨ (encode v).length < bytes.length := by
  have run : Decoder.varint ⟨bytes, 0⟩ = .ok v.toNat ⟨[], bytes.length⟩ :=
    Decoder.varint_ok_iff.mpr ⟨bytes, spells, (List.append_nil _).symm, (Nat.zero_add _).symm⟩
  have least := (Decoder.varint_ok run).2
  rw [ofNat_toNat, List.length_nil, Nat.add_zero] at least
  rcases Nat.lt_or_eq_of_le least with less | same
  · exact Or.inr less
  · have written := encode_spells v
    exact Or.inl (spells.group.unique written.group same.symm (spells.number.trans written.number.symm))

end Varint

/-! ### Shifts -/

namespace Checked

/-- A shift that traps where a bit is shifted out of the word. -/
def shiftLeft (a : UInt64) (n : Nat) : Checked UInt64 :=
  if a.toNat * Nat.pow 2 n < wordBound then return a <<< UInt64.ofNat n else trap

theorem shiftLeft_eq {a : UInt64} {n : Nat} (fits : a.toNat * 2 ^ n < 2 ^ 64) :
    shiftLeft a n = pure (a <<< UInt64.ofNat n) :=
  if_pos fits

/-- `varintGroups` by shifts that keep every bit. -/
def keptGroups (start : Nat) : Nat → Nat → UInt64 → Checked Nat
  | 0, _, _ => refuse (.malformed start .varintTooLong)
  | left + 1, i, value => do
    let b ← byte
    let low := (b &&& 0x7F).toUInt64
    if left = 0 ∧ 1 < low then refuse (.malformed start .varintOverflow)
    else
      let bits ← mul 7 i
      let shift ← amount 64 bits
      let group ← shiftLeft low shift
      let value := value ||| group
      if b &&& 0x80 = 0 then return value.toNat
      else keptGroups start left (i + 1) value

def keptVarint : Checked Nat := do
  let start ← position
  keptGroups start 10 0 0

theorem keptGroups_eq {start left i : Nat} (whole : i + left = 10) (value : UInt64) :
    keptGroups start left i value = varintGroups start left i value := by
  induction left generalizing i value with
  | zero => rfl
  | succ left ih =>
    unfold keptGroups varintGroups
    refine bind_congr fun b => ?_
    dsimp only
    split
    · rfl
    · rename_i fits
      rw [UInt64.lt_iff_toNat_lt, group_toNat] at fits
      have kept := group_fits whole fits (Nat.mod_lt b.toNat (by decide))
      rw [mul_eq (by simp only [wordBound]; omega), pure_bind, pure_bind, amount_eq (by omega), pure_bind,
        pure_bind, shiftLeft_eq (group_toNat b ▸ kept), pure_bind]
      split
      · rfl
      · exact ih (by omega) _

theorem keptVarint_eq : keptVarint = varint :=
  bind_congr fun _ => keptGroups_eq (show 0 + 10 = 10 from rfl) 0

end Checked

/-! ### Main result -/

namespace Varint

/-- Every word is written in one to ten bytes, which is what shifts of the word give; it is read back from them,
whatever follows, and any other spelling that is accepted is longer. A number is read exactly if a spelling of it
is at the front, which is what is taken; the input is told to have ended exactly if it does so in fewer than ten
bytes that all go on; and all else is malformed. The reader that shifts words does the same, and no shift loses a
bit. -/
theorem read_iff_spelled :
    (∀ v : UInt64,
      (1 ≤ (encode v).length ∧ (encode v).length ≤ 10) ∧ shifted v = encode v ∧
        (∀ suffix pos,
          Decoder.varint ⟨encode v ++ suffix, pos⟩ = .ok v.toNat ⟨suffix, pos + (encode v).length⟩) ∧
        ∀ bytes rest pos pos', Decoder.varint ⟨bytes ++ rest, pos⟩ = .ok v.toNat ⟨rest, pos'⟩ →
          bytes = encode v ∨ (encode v).length < bytes.length) ∧
      (∀ c : Cursor,
        (∀ v c', Decoder.varint c = .ok v c' ↔
          ∃ bytes, Spells bytes v ∧ c.rest = bytes ++ c'.rest ∧ c'.pos = c.pos + bytes.length) ∧
        ((∃ e c', Decoder.varint c = .error e c' ∧ e.kind = .truncated) ↔ Unfinished 10 c.rest) ∧
        ((∃ e c', Decoder.varint c = .error e c' ∧ e.kind = .malformed ∧ e.offset = some c.pos) ↔
          (¬∃ bytes v, bytes <+: c.rest ∧ Spells bytes v) ∧ ¬Unfinished 10 c.rest)) ∧
      Checked.keptVarint = Checked.varint ∧ ∀ size, Refines size Checked.keptVarint Decoder.varint := by
  refine ⟨fun v => ⟨⟨?_, groups_length_le 9 _⟩, shifted_eq_encode v, encode_reads v, ?_⟩,
    fun c => ⟨fun v c' => Decoder.varint_ok_iff, Decoder.varint_truncated_iff, Decoder.varint_malformed_iff⟩,
    Checked.keptVarint_eq, fun size => Checked.keptVarint_eq ▸ Checked.varint_refines⟩
  · rw [← ofNat_toNat]
    exact ofNat_length_pos v.toNat
  · intro bytes rest pos pos' run
    obtain ⟨spelling, spells, front, _⟩ := Decoder.varint_ok_iff.mp run
    obtain ⟨rfl, _⟩ := List.append_inj' front rfl
    exact encode_shortest spells

/-- The greatest word, a spelling of zero that is longer than needed, and inputs of nine and of ten bytes that all
go on. -/
theorem read_iff_spelled_greatest :
    encode 0xFFFFFFFFFFFFFFFF = List.replicate 9 0xFF ++ [0x01] ∧
      Decoder.varint ⟨[0x80, 0x00, 0x2A], 0⟩ = .ok 0 ⟨[0x2A], 2⟩ ∧ (encode 0).length < 2 ∧
        (∃ e c', Decoder.varint ⟨List.replicate 9 0xFF, 0⟩ = .error e c' ∧ e.kind = .truncated) ∧
          ∃ e c', Decoder.varint ⟨List.replicate 10 0xFF, 0⟩ = .error e c' ∧ e.kind = .malformed ∧
            e.offset = some 0 := by
  obtain ⟨written, read, _⟩ := read_iff_spelled
  have overlong : Decoder.varint ⟨[0x80, 0x00, 0x2A], 0⟩ = .ok 0 ⟨[0x2A], 2⟩ := rfl
  have goes (n : Nat) : ∀ b ∈ List.replicate n (0xFF : UInt8), goesOn b = true := by
    intro b member
    rw [List.eq_of_mem_replicate member]
    rfl
  refine ⟨by decide, overlong, ?_, (read _).2.1.mpr ⟨by decide, goes 9⟩, (read _).2.2.mpr ⟨?_, ?_⟩⟩
  · exact ((written 0).2.2.2 [0x80, 0x00] [0x2A] 0 2 overlong).resolve_left (by decide)
  · rintro ⟨bytes, v, front, spells⟩
    exact spells.group.not_prefix front (goes 10)
  · exact fun cut => absurd cut.short (by decide)

end Varint

end TrackedRecord.Wire
