import TrackedRecord.Proofs.Json.Reader
import TrackedRecord.Proofs.Wire.Number
import TrackedRecord.Wire.SettingsFile

/-!
# Settings that are loaded

A file gives settings that a codec accepts. The limits that a text sets are numbers of 64 bits.
-/

namespace TrackedRecord.Wire.Settings

theorem uint64?_lt {json : Json} (inRange : json.InRange) {n : Nat} (read : json.uint64? = some n) :
    n < wordBound := by
  unfold Json.uint64? at read
  split at read
  · rename_i whole
    have bounds := inRange.whole
    unfold Json.maxWhole at bounds
    unfold wordBound
    split at read
    · cases read
      omega
    · cases read
  · cases read

theorem setting?_lt {members : List (String × Json)} (inRange : ∀ member ∈ members, member.2.InRange)
    {default : Nat} (small : default < wordBound) {key : String} {n : Nat}
    (read : setting? Json.uint64? default key members = some n) : n < wordBound := by
  unfold setting? at read
  split at read
  · cases read
    exact small
  · rename_i json only
    have member : _ ∈ members.filter fun m => m.1 == key := only ▸ List.mem_singleton_self _
    exact uint64?_lt (inRange _ (List.mem_filter.mp member).1) read
  · cases read

theorem ofMembers?_lt {members : List (String × Json)} (inRange : ∀ member ∈ members, member.2.InRange)
    {settings : Settings} (read : ofMembers? members = some settings) : settings.maxCollection < wordBound := by
  unfold ofMembers? at read
  obtain ⟨maxCollection, known, read⟩ := Option.bind_eq_some_iff.mp read
  obtain ⟨_, _, read⟩ := Option.bind_eq_some_iff.mp read
  obtain ⟨_, _, read⟩ := Option.bind_eq_some_iff.mp read
  obtain ⟨_, _, read⟩ := Option.bind_eq_some_iff.mp read
  obtain ⟨_, _, read⟩ := Option.bind_eq_some_iff.mp read
  cases read
  exact setting?_lt inRange (by decide) known

theorem ofJson?_lt {json : Json} (inRange : json.InRange) {settings : Settings}
    (read : ofJson? json = some settings) : settings.maxCollection < wordBound := by
  cases json with
  | object members =>
    exact ofMembers?_lt (fun member inside => inRange.part (List.mem_map_of_mem inside)) read
  | array items =>
    rw [ofJson?, ofItems?] at read
    split at read
    · cases read
    · exact ofMembers?_lt (fun member inside => inRange.part (List.of_mem_zip inside).2) read
  | _ => cases read

theorem ofText_lt {text : String} {settings : Settings} (read : ofText text = .ok settings) :
    settings.maxCollection < wordBound := by
  unfold ofText at read
  split at read
  · cases read
  · rename_i json skimmed
    split at read
    · cases read
      exact ofJson?_lt (Json.Reader.document_inRange skimmed) ‹_›
    · cases read

theorem loadWith_ok {read : String → Except String Settings} {table : Files.Table} {path : String}
    {settings : Settings} (loaded : loadWith read table path = .ok settings) :
    settings.validate = .ok () ∧ ∃ text, read text = .ok settings := by
  unfold loadWith at loaded
  split at loaded
  · cases loaded
  · rename_i text _
    split at loaded
    · cases loaded
    · rename_i given
      obtain ⟨_, valid, loaded⟩ := Result.bind_ok loaded
      cases loaded
      exact ⟨valid, text, given⟩

end TrackedRecord.Wire.Settings
