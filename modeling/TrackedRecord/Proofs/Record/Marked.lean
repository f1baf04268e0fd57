import TrackedRecord.Proofs.Record.Formed
import TrackedRecord.Proofs.Record.ReadBack

/-!
# Marks of documents

The fields that a document names are dirty and readable in its record and hold what was read of their members; the
others are left as they were.
-/

namespace TrackedRecord

theorem Layout.name_of_indexOf? {layout : Layout} {name : String} {i : Nat} {field : Field}
    (found : layout.indexOf? name = some i) (known : layout.field? i = some field) : field.name = name := by
  obtain ⟨inside, named, _⟩ := List.findIdx?_eq_some_iff_getElem.mp found
  rw [field?, List.getElem?_eq_getElem inside] at known
  obtain rfl := Option.some.inj known
  exact eq_of_beq named

namespace Document

variable {registry : Registry}

/-- The field at an index is the one that a member names. -/
def Fills (layout : Layout) (members : List (String × Json)) (i : Nat) : Prop :=
  ∃ member ∈ members, layout.indexOf? member.1 = some i

theorem fills_cons {layout : Layout} {member : String × Json} {rest : List (String × Json)} {index : Nat}
    (found : layout.indexOf? member.1 = some index) (i : Nat) :
    Fills layout (member :: rest) i ↔ index = i ∨ Fills layout rest i := by
  simp only [Fills, List.mem_cons, exists_eq_or_imp, found, Option.some.injEq]

/-- The fields that members fill hold what was read of them and are marked; the others are left. -/
structure Writes (registry : Registry) (layout : Layout) (members : List (String × Json)) (r r' : Record Value) :
    Prop where
  own : r'.layout = r.layout
  written : ∀ i, Fills layout members i → ∃ name json field, (name, json) ∈ members ∧
    layout.indexOf? name = some i ∧ layout.field? i = some field ∧
    valueOf registry (layout.name ++ "." ++ name) field.schema json = .ok (r'.slot i)
  kept : ∀ i, ¬Fills layout members i → r'.slot i = r.slot i
  dirty : ∀ i, r'.isDirty i = true ↔ r.isDirty i = true ∨ Fills layout members i
  readable : ∀ i, r'.isReadable i = true ↔ r.isReadable i = true ∨ Fills layout members i

theorem setMembers_writes {home : Registry} {layout : Layout} {members : List (String × Json)}
    {r r' : Record Value} (shaped : r.Shaped home) (read : setMembers registry layout r members = .ok r') :
    Writes registry layout members r r' := by
  induction members generalizing r with
  | nil =>
    rw [setMembers] at read
    obtain rfl := Except.ok.inj read
    have none (i : Nat) : ¬Fills layout [] i := by
      rintro ⟨_, member, _⟩
      cases member
    refine ⟨rfl, fun i filled => absurd filled (none i), fun _ _ => rfl, fun i => ?_, fun i => ?_⟩
    · exact ⟨Or.inl, fun either => either.resolve_right (none i)⟩
    · exact ⟨Or.inl, fun either => either.resolve_right (none i)⟩
  | cons member rest ih =>
    obtain ⟨name, json⟩ := member
    rw [setMembers] at read
    obtain ⟨index, found, ofField⟩ := Result.bind_ok read
    obtain ⟨field, known, ofValue⟩ := Result.bind_ok ofField
    obtain ⟨value, first, ofNext⟩ := Result.bind_ok ofValue
    obtain ⟨next, set, later⟩ := Result.bind_ok ofNext
    rw [Layout.indexOf_ok] at found
    obtain ⟨does, shapedNext⟩ := Change.apply_does shaped (show (Change.set index value).apply r = .ok next from set)
    have writes := ih shapedNext later
    have fills (i : Nat) : Fills layout ((name, json) :: rest) i ↔ index = i ∨ Fills layout rest i :=
      fills_cons found i
    refine ⟨writes.own.trans does.layout, fun i filled => ?_, fun i unfilled => ?_, fun i => ?_, fun i => ?_⟩
    · by_cases later : Fills layout rest i
      · obtain ⟨other, json', field', member, position, knownOther, readOther⟩ := writes.written i later
        exact ⟨other, json', field', List.mem_cons_of_mem _ member, position, knownOther, readOther⟩
      · obtain rfl := ((fills i).mp filled).resolve_right later
        have written : r'.slot index = value := by
          rw [writes.kept index later, does.slot]
          exact if_pos rfl
        exact ⟨name, json, field, List.mem_cons_self, found, Layout.fieldAt_ok.mp known, written ▸ first⟩
    · obtain ⟨other, later⟩ := not_or.mp (mt (fills i).mpr unfilled)
      rw [writes.kept i later, does.slot]
      exact if_neg (Ne.symm other)
    · rw [writes.dirty, does.dirty, fills, Bool.or_eq_true, decide_eq_true_iff, or_assoc]
      rfl
    · rw [writes.readable, does.readable, fills, Bool.or_eq_true, decide_eq_true_iff, or_assoc]
      rfl

/-- Where no two fields share a name, the fields that are filled are those that are named. -/
theorem fills_iff {layout : Layout} (regular : layout.Regular) {members : List (String × Json)} {i : Nat} :
    Fills layout members i ↔ Names layout members i := by
  constructor
  · rintro ⟨member, inside, found⟩
    obtain ⟨field, known⟩ := Layout.exists_field (List.findIdx?_eq_some_iff_getElem.mp found).1
    exact ⟨field, known, List.mem_map.mpr ⟨member, inside, (Layout.name_of_indexOf? found known).symm⟩⟩
  · rintro ⟨field, known, named⟩
    obtain ⟨member, inside, same⟩ := List.mem_map.mp named
    exact ⟨member, inside, (congrArg _ same).trans (regular.indexOf?_name known)⟩

structure Marks (registry : Registry) (layout : Layout) (members : List (String × Json)) (r r' : Record Value) :
    Prop where
  own : r'.layout = r.layout
  written : ∀ i, Names layout members i → ∃ field path json, layout.field? i = some field ∧
    (field.name, json) ∈ members ∧ valueOf registry path field.schema json = .ok (r'.slot i)
  kept : ∀ i, ¬Names layout members i → r'.slot i = r.slot i
  dirty : ∀ i, r'.isDirty i = true ↔ r.isDirty i = true ∨ Names layout members i
  readable : ∀ i, r'.isReadable i = true ↔ r.isReadable i = true ∨ Names layout members i

theorem setMembers_marks {layout : Layout} {members : List (String × Json)} {r r' : Record Value}
    (regular : layout.Regular) (shaped : r.Shaped registry)
    (read : setMembers registry layout r members = .ok r') : Marks registry layout members r r' := by
  have writes := setMembers_writes shaped read
  refine ⟨writes.own, fun i named => ?_, fun i unnamed => ?_, fun i => ?_, fun i => ?_⟩
  · obtain ⟨name, json, field, member, found, known, first⟩ := writes.written i ((fills_iff regular).mpr named)
    obtain rfl := Layout.name_of_indexOf? found known
    exact ⟨field, _, json, known, member, first⟩
  · exact writes.kept i (mt (fills_iff regular).mp unnamed)
  · rw [writes.dirty, fills_iff regular]
  · rw [writes.readable, fills_iff regular]

/-- A document marks the fields that it names and no others. -/
theorem recordOf_marks {compiled : CompiledRecord} (regular : compiled.layout.Regular)
    (known : registry.get? compiled.layout.fullName = some compiled.layout) (default : compiled.fresh = Record.empty)
    {members : List (String × Json)} {r : Record Value}
    (read : recordOf registry compiled (.object members) = .ok r) :
    r.layout = compiled.layout ∧ (∀ i, r.isDirty i = true ↔ Names compiled.layout members i) ∧
      (∀ i, r.isReadable i = true ↔ Names compiled.layout members i) ∧
      ∀ i, Names compiled.layout members i → ∃ field path json, compiled.layout.field? i = some field ∧
        (field.name, json) ∈ members ∧ valueOf registry path field.schema json = .ok (r.slot i) := by
  rw [recordOf, default] at read
  have marks := setMembers_marks regular (Record.empty_wellFormed known).1 read
  have clear (i : Nat) : ¬(FieldBits.new compiled.layout.fieldCount).get i = true := by simp
  refine ⟨marks.own, fun i => ?_, fun i => ?_, marks.written⟩
  · exact (marks.dirty i).trans ⟨fun either => either.resolve_left (clear i), Or.inr⟩
  · exact (marks.readable i).trans ⟨fun either => either.resolve_left (clear i), Or.inr⟩

end Document

end TrackedRecord
