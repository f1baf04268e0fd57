import TrackedRecord.Command.Program
import TrackedRecord.Proofs.Command.Formats
import TrackedRecord.Proofs.Record.Marked

/-!
# Codecs that commands open

A command that opens a codec reads files and writes none. The codec's registry is compiled of a batch that was
parsed, so its layouts are regular and its records start empty.
-/

namespace TrackedRecord

open Wire (wordBound)

theorem Library.loadWith_ok {read : String → Except String Json} {table : Files.Table} {path : String}
    {library library' : Library} {batch : Batch} (run : loadWith read table path library = .ok batch library') :
    ∃ documents schemas, documentsOfFiles read table (filesAt table path) = .ok documents ∧
      Vocabulary.parseDocuments documents library.vocabulary = .ok schemas library'.vocabulary ∧
      library'.roots = library.roots ++ schemas := by
  cases found : documentsOfFiles read table (filesAt table path) with
  | error e =>
    simp only [loadWith, found] at run
    cases run
  | ok documents =>
    simp only [loadWith, found] at run
    obtain ⟨number, added, parsed, counted⟩ := Result.bind_run_ok run
    cases counted
    unfold addDocuments at parsed
    split at parsed
    · rename_i schemas vocabulary taken
      cases parsed
      exact ⟨documents, schemas, rfl, taken, rfl⟩
    · cases parsed

namespace Command

variable {formats : Formats} {files : Files.Table} {w w' : World}

theorem attempt_ok {ε α : Type} {wrap : ε → CommandError} {result : Except ε α} {a : α}
    (run : attempt wrap result w = .ok a w') : result = .ok a ∧ w' = w := by
  cases result with
  | ok => cases run; exact ⟨rfl, rfl⟩
  | error => cases run

theorem attempt_of_ok {ε α : Type} {wrap : ε → CommandError} {result : Except ε α} {a : α} (ok : result = .ok a) :
    attempt wrap result w = .ok a w := by
  rw [ok]
  rfl

theorem get_bind {α : Type} (f : World → Running α) : (get >>= f) w = f w w := rfl

theorem report_bind {α : Type} (entries : List Journal.Entry) (rest : Running α) :
    (report entries >>= fun _ => rest) w = rest { w with entries := w.entries ++ entries } := rfl

/-- A registry that was compiled of a batch that was parsed. -/
def Loaded (registry : Registry) : Prop :=
  ∃ (v : Vocabulary) (roots : List Schema), Vocabulary.Runs {} v ∧ Registry.compile v.catalog roots = .ok registry

theorem loadTypes_ok {schema : String} {registry : Registry} (run : loadTypes formats schema w = .ok registry w') :
    Loaded registry ∧ w'.files = w.files := by
  rw [loadTypes, get_bind] at run
  cases loaded : Library.loadWith formats.readJson w.files schema {} with
  | error e library =>
    simp only [loaded] at run
    cases run
  | ok batch library =>
    simp only [loaded] at run
    obtain ⟨documents, schemas, _, parsed, _⟩ := Library.loadWith_ok loaded
    rw [report_bind, report_bind] at run
    obtain ⟨compiled, rfl⟩ := attempt_ok run
    exact ⟨⟨library.vocabulary, library.roots, .parsed .nothing (.batch documents) parsed, compiled⟩, rfl⟩

theorem loadSettings_ok (lawful : formats.Lawful) {path : Option String} {settings : Wire.Settings}
    (run : loadSettings formats path w = .ok settings w') : settings.maxCollection < wordBound ∧ w'.files = w.files := by
  cases path with
  | none =>
    cases run
    exact ⟨by decide, rfl⟩
  | some path =>
    rw [loadSettings, get_bind] at run
    obtain ⟨found, w₁, loaded, rest⟩ := Result.bind_run_ok run
    obtain ⟨loaded, rfl⟩ := attempt_ok loaded
    rw [report_bind] at rest
    cases rest
    obtain ⟨_, text, read⟩ := Wire.Settings.loadWith_ok loaded
    exact ⟨lawful.limits read, rfl⟩

/-- A codec as a command opens it. -/
structure Opened (codec : Wire.Codec) : Prop where
  loaded : Loaded codec.registry
  made : ∃ type, Wire.Codec.new codec.registry type codec.settings = .ok codec
  small : codec.settings.maxCollection < wordBound

theorem openCodec_ok (lawful : formats.Lawful) {target : Target} {codec : Wire.Codec}
    (run : openCodec formats target w = .ok codec w') : Opened codec ∧ w'.files = w.files := by
  obtain ⟨settings, w₁, limits, run⟩ := Result.bind_run_ok run
  obtain ⟨registry, w₂, types, run⟩ := Result.bind_run_ok run
  obtain ⟨small, sameFiles⟩ := loadSettings_ok lawful limits
  obtain ⟨loaded, stillSame⟩ := loadTypes_ok types
  dsimp only at run
  split at run
  · cases run
  · obtain ⟨made, rfl⟩ := attempt_ok run
    refine ⟨?_, stillSame.trans sameFiles⟩
    have held : codec.registry = registry ∧ codec.settings = settings := by
      obtain ⟨_, _, made⟩ := Result.bind_ok made
      split at made
      · obtain rfl := Result.pure_ok made
        exact ⟨rfl, rfl⟩
      · cases made
    obtain ⟨rfl, rfl⟩ := held
    exact ⟨loaded, ⟨_, made⟩, small⟩

namespace Opened

variable {codec : Wire.Codec}

theorem known (opened : Opened codec) : codec.registry.record? codec.typeName = some codec.compiled := by
  obtain ⟨type, made⟩ := opened.made
  obtain ⟨_, _, made⟩ := Result.bind_ok made
  split at made
  · rename_i compiled found
    have same := Result.pure_ok made
    rw [Wire.Codec.typeName, Wire.Codec.layout, same, Registry.fullName_of_record? found]
    exact found
  · cases made

theorem layout (opened : Opened codec) :
    codec.registry.get? codec.compiled.layout.fullName = some codec.compiled.layout :=
  Registry.get?_of_record? opened.known

theorem regular (opened : Opened codec) : codec.compiled.layout.Regular := by
  obtain ⟨v, roots, runs, compiled⟩ := opened.loaded
  exact Registry.compile_regular (runs.regular Vocabulary.regular_new) compiled opened.layout

theorem fresh (opened : Opened codec) : codec.compiled.fresh = Record.empty := by
  obtain ⟨v, roots, runs, compiled⟩ := opened.loaded
  exact Registry.compile_fresh compiled _ (List.mem_of_find?_eq_some opened.known)

theorem codec_made (opened : Opened codec) (counted : codec.registry.Counted) : codec.Made := by
  obtain ⟨v, roots, runs, compiled⟩ := opened.loaded
  obtain ⟨type, made⟩ := opened.made
  exact .new (.compile compiled fun record member => (counted record member).1) made

end Opened

end Command

end TrackedRecord
