import TrackedRecord.Proofs.Wire.Decoder
import TrackedRecord.Proofs.Wire.Number
import TrackedRecord.Wire.PackedBits

/-!
# What decoders report

Bytes may be of another schema, end too early or be malformed, and the place that is reported lies in the
input or at its end. A decoder that neither leaves the input nor reports anything else does so in a row
with others.
-/

namespace TrackedRecord.Wire

/-- An error other than that a type is not compiled. -/
def Error.Compiled (e : Error) : Prop := ∀ type, e.cause ≠ .notCompiled type

/-- An error of an input of `size` bytes, found in it or at its end if at any place. -/
structure Error.Placed (size : Nat) (e : Error) : Prop where
  kind : e.kind = .schemaMismatch ∨ e.kind = .truncated ∨ e.kind = .malformed
  offset : ∀ place, e.offset = some place → place ≤ size

namespace Error.Placed

variable {size : Nat} {e : Error} {cause : Cause} {start : Nat}

theorem truncated {needed : Nat} (inside : start ≤ size) : Placed size (.truncated start needed) where
  kind := Or.inr (Or.inl rfl)
  offset _ same := Option.some.inj same ▸ inside

theorem malformed (inside : start ≤ size) : Placed size (.malformed start cause) where
  kind := Or.inr (Or.inr rfl)
  offset _ same := Option.some.inj same ▸ inside

theorem schemaMismatch : Placed size (.schemaMismatch cause) where
  kind := Or.inl rfl
  offset _ same := by cases same

theorem atByte (placed : e.Placed size) (inside : start ≤ size) : (e.atByte start).Placed size where
  kind := placed.kind
  offset _ same := Option.some.inj same ▸ inside

theorem within {segment : String} (placed : e.Placed size) : (e.within segment).Placed size :=
  ⟨placed.kind, placed.offset⟩

end Error.Placed

/-- An error that an input of `size` bytes may cause where all types are compiled. -/
structure Error.Proper (size : Nat) (e : Error) : Prop extends e.Placed size where
  compiled : e.Compiled

namespace Error.Proper

variable {size : Nat} {e : Error} {cause : Cause} {start : Nat}

theorem truncated {needed : Nat} (inside : start ≤ size) : Proper size (.truncated start needed) where
  toPlaced := .truncated inside
  compiled _ same := Cause.noConfusion same

theorem malformed (inside : start ≤ size)
    (compiled : ∀ type, cause ≠ .notCompiled type) :
    Proper size (.malformed start cause) where
  toPlaced := .malformed inside
  compiled := compiled

theorem schemaMismatch (compiled : ∀ type, cause ≠ .notCompiled type := by intro _ same; cases same) :
    Proper size (.schemaMismatch cause) where
  toPlaced := .schemaMismatch
  compiled := compiled

theorem atByte (proper : e.Proper size) (inside : start ≤ size) : (e.atByte start).Proper size where
  toPlaced := proper.toPlaced.atByte inside
  compiled := proper.compiled

theorem within {segment : String} (proper : e.Proper size) : (e.within segment).Proper size where
  toPlaced := proper.toPlaced.within
  compiled := proper.compiled

end Error.Proper

/-- Somewhere in an input of `size` bytes, the decoder stays inside or reports a proper error. -/
def Reports {α : Type} (size : Nat) (d : Decoder α) : Prop :=
  ∀ c : Cursor, c.pos + c.rest.length = size →
    match d c with
    | .ok _ c' => c'.pos + c'.rest.length = size
    | .error e _ => e.Proper size

namespace Reports

variable {α β : Type} {size : Nat} {d : Decoder α} {f : α → Decoder β}

theorem ok (reports : Reports size d) {c c' : Cursor} {a : α} (run : d c = .ok a c')
    (start : c.pos + c.rest.length = size) : c'.pos + c'.rest.length = size := by
  have each := reports c start
  rwa [run] at each

theorem error (reports : Reports size d) {c c' : Cursor} {e : Error} (run : d c = .error e c')
    (start : c.pos + c.rest.length = size) : e.Proper size := by
  have each := reports c start
  rwa [run] at each

theorem pure (a : α) : Reports size (pure a : Decoder α) := fun _ start => start

theorem throw {e : Error} (proper : e.Proper size) : Reports size (throw e : Decoder α) := fun _ _ => proper

/-- The second decoder counts only for what the first may give. -/
theorem bind_given (first : Reports size d) (second : ∀ a c c', d c = .ok a c' → Reports size (f a)) :
    Reports size (d >>= f) := by
  intro c start
  cases run : d c with
  | ok a c₁ =>
    rw [Decoder.bind_of_ok run]
    exact second a c c₁ run c₁ (first.ok run start)
  | error e c₁ =>
    rw [Decoder.bind_of_error run]
    exact first.error run start

theorem bind (first : Reports size d) (second : ∀ a, Reports size (f a)) : Reports size (d >>= f) :=
  first.bind_given fun a _ _ _ => second a

theorem map {g : α → β} (inner : Reports size d) : Reports size (do let a ← d; return g a) :=
  inner.bind fun a => Reports.pure (g a)

theorem position {f : Nat → Decoder β} (rest : ∀ start, start ≤ size → Reports size (f start)) :
    Reports size (Decoder.position >>= f) :=
  fun c start => rest c.pos (by omega) c start

theorem within {segment : String} (inner : Reports size d) : Reports size (Decoder.within segment d) := by
  intro c start
  cases run : d c with
  | ok a c₁ =>
    rw [Decoder.within_ok.mpr run]
    exact inner.ok run start
  | error e c₁ =>
    rw [Decoder.within_of_error run]
    exact (inner.error run start).within

theorem ite {p : Prop} [Decidable p] {d e : Decoder α} (yes : Reports size d) (no : Reports size e) :
    Reports size (if p then d else e) := by
  split
  · exact yes
  · exact no

end Reports

namespace Decoder

variable {size : Nat} {settings : Settings}

theorem byte_reports : Reports size byte := by
  rintro ⟨rest, pos⟩ start
  cases rest with
  | nil => exact Error.Proper.truncated (Nat.le.intro start)
  | cons b rest =>
    simp only [byte, List.length_cons] at start ⊢
    omega

theorem exact_reports (n : Nat) : Reports size (exact n) := by
  intro c start
  by_cases enough : (c.rest.take n).length = n
  · have run : exact n c = .ok (c.rest.take n) ⟨c.rest.drop n, c.pos + n⟩ := if_pos enough
    rw [List.length_take] at enough
    simp only [run, List.length_drop]
    omega
  · have run : exact n c = .error (.truncated c.pos (n - (c.rest.take n).length)) c := if_neg enough
    rw [run]
    exact Error.Proper.truncated (Nat.le.intro start)

theorem varintGroups_reports {start : Nat} (inside : start ≤ size) (left : Nat) :
    Reports size (varintGroups start left) := by
  induction left with
  | zero => exact Reports.throw (.malformed inside nofun)
  | succ left ih =>
    rw [varintGroups_succ]
    refine byte_reports.bind fun b => Reports.ite (Reports.throw (.malformed inside nofun)) ?_
    exact Reports.ite (Reports.pure _) ih.map

theorem varint_reports : Reports size varint :=
  Reports.position fun _ inside => varintGroups_reports inside 10

theorem count_reports : Reports size (count settings) := by
  refine Reports.position fun start inside => varint_reports.bind fun n => ?_
  exact Reports.ite (Reports.throw (.malformed inside nofun)) (Reports.pure _)

theorem boolean_reports : Reports size boolean := by
  refine Reports.position fun start inside => byte_reports.bind fun b => ?_
  exact Reports.ite (Reports.pure _) (Reports.ite (Reports.pure _)
    (Reports.throw (.malformed inside nofun)))

theorem fixedWidth_reports (width : Nat) : Reports size (fixedWidth width) := (exact_reports width).map

theorem byteString_reports : Reports size (byteString settings) := by
  refine Reports.position fun start inside => varint_reports.bind fun length => ?_
  exact Reports.ite (Reports.throw (.malformed inside nofun)) (exact_reports length)

theorem text_reports : Reports size (text settings) := by
  refine Reports.position fun start inside => byteString_reports.bind fun bytes => ?_
  cases Utf8.decode? bytes with
  | some s => exact Reports.pure s
  | none => exact Reports.throw (.malformed inside nofun)

theorem packedBits_reports (len : Nat) : Reports size (packedBits len) := by
  refine Reports.position fun start inside => (exact_reports _).bind fun bytes => ?_
  exact Reports.ite (Reports.throw (.malformed inside nofun)) (Reports.pure _)

end Decoder

end TrackedRecord.Wire
